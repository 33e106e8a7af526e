import CtfServer.Json.Grammar

/-!
# The reader takes the grammar

What `read_object` and `read_value` take, against the grammar.

* `Steps R`           a context that goes through the members of an object;
* `FieldReader V R`   a reader of fields that takes the values `V` and does `R`;
* `readObject_sound`, `readObject_complete`   an object, for any such reader;
* `readValue_sound`, `readValue_complete`     any value, its depth, its distinct keys;
* `readValue_longest`                         nothing longer could be read.
-/

set_option linter.unusedVariables false
set_option linter.unusedSimpArgs false

namespace Json

/-- behind a value: a number must not go on -/
def Ends (v r : Bytes) : Prop := Number v → Stops r

/-- a byte that may stand behind a value -/
theorem stops_cons {c : UInt8} (h : c = 0x2c ∨ c = 0x5d ∨ c = 0x7d ∨ isSpace c = true) (r : Bytes) :
    Stops (c :: r) := by
  intro x hx
  cases hx
  rw [isSpace_iff] at h
  rcases h with rfl | rfl | rfl | rfl | rfl | rfl | rfl <;>
    exact ⟨by unfold Digit; decide, by decide, by decide, by decide⟩

theorem stops_ws {w : Bytes} (hw : Ws w) {c : UInt8} (h : c = 0x2c ∨ c = 0x5d ∨ c = 0x7d)
    (r : Bytes) :
    Stops (w ++ c :: r) := by
  cases w with
  | nil => exact stops_cons (h.imp_right fun h => h.imp_right Or.inl) r
  | cons x w =>
    have hx := (ws_iff _).mp hw x (List.mem_cons_self ..)
    exact stops_cons (Or.inr (Or.inr (Or.inr hx))) _

theorem stops_only_ws {w : Bytes} (hw : Ws w) : Stops w := by
  cases w with
  | nil => exact nofun
  | cons x w =>
    have hx := (ws_iff _).mp hw x (List.mem_cons_self ..)
    exact stops_cons (Or.inr (Or.inr (Or.inr hx))) _

/-! ## arrays -/

/-- a reader of the values `V` -/
structure ValueReader (V : Bytes → Prop) (value : Bytes → Except Error Bytes) : Prop where
  sound : ∀ cur rest, value cur = .ok rest → ∃ w v, Ws w ∧ V v ∧ cur = w ++ (v ++ rest)
  complete : ∀ w v r, Ws w → V v → Ends v r → value (w ++ (v ++ r)) = .ok r

theorem arrayLoop_sound {V : Bytes → Prop} {value : Bytes → Except Error Bytes}
    (hv : ∀ cur rest, value cur = .ok rest → ∃ w v, Ws w ∧ V v ∧ cur = w ++ (v ++ rest))
    {turns : Nat} {cur rest : Bytes}
    (h : arrayLoop value turns cur = .ok rest) :
    ∃ vs es, Elements V vs es ∧ cur = es ++ 0x5d :: rest := by
  induction turns generalizing cur with
  | zero => cases h
  | succ turns ih =>
    rw [arrayLoop] at h
    split at h
    · cases h
    next cur1 h1 =>
    obtain ⟨w, v, hw, hV, rfl⟩ := hv _ _ h1
    split at h
    · next r hr =>
      cases h
      obtain ⟨w', hw', rfl⟩ := consume_split hr
      exact ⟨[v], _, .one hw hV hw', by simp [CLOSE_BRACKET]⟩
    split at h
    · next cur2 hc =>
      obtain ⟨w', hw', rfl⟩ := consume_split hc
      obtain ⟨vs, es, he, rfl⟩ := ih h
      exact ⟨v :: vs, _, .more hw hV hw' he, by simp [COMMA]⟩
    · cases h

theorem arrayLoop_complete {V : Bytes → Prop} {value : Bytes → Except Error Bytes}
    (hv : ∀ w v r, Ws w → V v → Ends v r → value (w ++ (v ++ r)) = .ok r)
    {vs : List Bytes} {es : Bytes}
    (h : Elements V vs es) {turns : Nat} (ht : es.length < turns) (rest : Bytes) :
    arrayLoop value turns (es ++ 0x5d :: rest) = .ok rest := by
  induction h generalizing turns with
  | @one w v w' hw hV hw' =>
    cases turns with
    | zero => omega
    | succ turns =>
      have h1 := hv w v (w' ++ 0x5d :: rest) hw hV fun _ => stops_ws hw' (by decide) rest
      have h2 : consume CLOSE_BRACKET (w' ++ 0x5d :: rest) = some rest :=
        consume_ws (by decide) hw' rest
      rw [List.append_assoc, List.append_assoc, arrayLoop, h1]
      dsimp only
      rw [h2]
  | @more w v w' es vs hw hV hw' he ih =>
    cases turns with
    | zero => omega
    | succ turns =>
      have h1 := hv w v (w' ++ 0x2c :: (es ++ 0x5d :: rest)) hw hV fun _ => stops_ws hw'
        (by decide) _
      have h2 : consume CLOSE_BRACKET (w' ++ 0x2c :: (es ++ 0x5d :: rest)) = none :=
        consume_other (by decide) (by decide) hw' _
      have h3 : consume COMMA (w' ++ 0x2c :: (es ++ 0x5d :: rest)) = some (es ++ 0x5d :: rest) :=
        consume_ws (by decide) hw' _
      have hcur : w ++ (v ++ (w' ++ 0x2c :: es)) ++ 0x5d :: rest = w ++
        (v ++ (w' ++ 0x2c :: (es ++ 0x5d :: rest))) := by
        simp
      rw [hcur, arrayLoop, h1]
      dsimp only
      rw [h2, h3]
      refine ih ?_
      simp only [List.length_append, List.length_cons] at ht
      omega

/-! ## objects -/

section
variable {σ : Type}

/-- a context goes through the members of an object -/
inductive Steps (R : Bytes → Bytes → σ → σ → Prop) : List (Bytes × Bytes) → σ → σ → Prop where
  | nil {s : σ} : Steps R [] s s
  | cons {key v : Bytes} {ps : List (Bytes × Bytes)} {s s1 s' : σ} :
      R key v s s1 → Steps R ps s1 s' → Steps R ((key, v) :: ps) s s'

/-- a reader of fields takes no other values than `V`, and does `R` -/
def FieldSound (V : Bytes → Prop) (R : Bytes → Bytes → σ → σ → Prop)
    (readField : Bytes → σ → Bytes → Except Error (σ × Bytes)) : Prop :=
  ∀ key s cur s' rest, readField key s cur = .ok (s', rest) →
    ∃ w v, Ws w ∧ V v ∧ R key v s s' ∧ cur = w ++ (v ++ rest)

/-- it takes them where `R` says so -/
def FieldComplete (V : Bytes → Prop) (R : Bytes → Bytes → σ → σ → Prop)
    (readField : Bytes → σ → Bytes → Except Error (σ × Bytes)) : Prop :=
  ∀ key s s' w v r, Ws w → V v → R key v s s' → Ends v r → readField key s (w ++ (v ++ r))
    = .ok (s', r)

/-- what stands between the braces of an object -/
def ObjectBody (V : Bytes → Prop) (ps : List (Bytes × Bytes)) (ms : Bytes) : Prop :=
  (ps = [] ∧ Ws ms) ∨ Members V ps ms

variable {V : Bytes → Prop} {R : Bytes → Bytes → σ → σ → Prop} {mem : Nat → Bool}
  {readField : Bytes → σ → Bytes → Except Error (σ × Bytes)}

theorem objectLoop_sound (hf : FieldSound V R readField) {turns : Nat} {keys : List Bytes}
    {s s' : σ} {cur rest : Bytes} (h : objectLoop mem readField turns keys s cur = .ok (s', rest)) :
    ∃ ps ms, Members V ps ms ∧ Steps R ps s s' ∧ (ps.map Prod.fst).Nodup ∧ (∀ p ∈ ps, p.1 ∉ keys) ∧
      cur = ms ++ 0x7d :: rest := by
  induction turns generalizing keys s cur with
  | zero => cases h
  | succ turns ih =>
    obtain ⟨key, cur1, cur2, s1, cur3, h1, hk, h2, h3, h4⟩ := objectLoop_turn h
    obtain ⟨w1, hw1, hkey, rfl⟩ := readString_split h1
    obtain ⟨w2, hw2, rfl⟩ := consume_split h2
    obtain ⟨w3, v, hw3, hV, hR, rfl⟩ := hf _ _ _ _ _ h3
    rcases h4 with ⟨h5, rfl⟩ | ⟨cur4, h5, h6⟩
    · obtain ⟨w4, hw4, rfl⟩ := consume_split h5
      refine ⟨[(key, v)], _, .one (.mk hw1 hkey hw2 hw3 hV hw4), .cons hR .nil, by simp, ?_, ?_⟩
      · intro p hp
        rw [List.mem_singleton.mp hp]
        exact hk
      · simp [CLOSE_BRACE, COLON]
    · obtain ⟨w4, hw4, rfl⟩ := consume_split h5
      obtain ⟨ps, ms, hms, hst, hnd, hnew, rfl⟩ := ih h6
      refine ⟨(key, v) :: ps, _, .more (.mk hw1 hkey hw2 hw3 hV hw4) hms, .cons hR hst, ?_, ?_, ?_⟩
      · rw [List.map_cons, List.nodup_cons]
        refine ⟨?_, hnd⟩
        intro hmem
        obtain ⟨p, hp, hpk⟩ := List.mem_map.mp hmem
        refine hnew p hp ?_
        rw [hpk]
        exact List.mem_cons_self ..
      · intro p hp
        rcases List.mem_cons.mp hp with rfl | hp
        · exact hk
        · exact fun hmem => hnew p hp (List.mem_cons_of_mem _ hmem)
      · simp [COMMA, COLON]

/-- one turn at a member, up to what stands behind it -/
theorem objectLoop_member (hf : FieldComplete V R readField) {key v m : Bytes}
    (hm : Member V (key, v) m) {s s1 : σ}
    (hR : R key v s s1) {keys : List Bytes} (hk : key ∉ keys) (turns : Nat) {c : UInt8}
    (hc : c = 0x2c ∨ c = 0x5d ∨ c = 0x7d) (r : Bytes) :
    objectLoop enoughMemory readField (turns + 1) keys s (m ++ c :: r) =
      match consume CLOSE_BRACE (c :: r) with
      | some cur => .ok (s1, cur)
      | none =>
        match consume COMMA (c :: r) with
        | some cur => objectLoop enoughMemory readField turns (key :: keys) s1 cur
        | none => .error .invalid := by
  obtain @⟨w1, key, w2, w3, v, w4, hw1, hkey, hw2, hw3, hV, hw4⟩ := hm
  have h1 := readString_chars hw1 hkey (w2 ++ 0x3a :: (w3 ++ (v ++ (w4 ++ c :: r))))
  have h2 : consume COLON (w2 ++ 0x3a :: (w3 ++ (v ++ (w4 ++ c :: r)))) =
    some (w3 ++ (v ++ (w4 ++ c :: r))) :=
    consume_ws (by decide) hw2 _
  have h3 := hf key s s1 w3 v (w4 ++ c :: r) hw3 hV hR fun _ => stops_ws hw4 hc r
  have hskip : ∀ x, consume x (w4 ++ c :: r) = consume x (c :: r) := by
    intro x
    unfold consume
    rw [skipWhitespace_ws hw4]
  have hcur : w1 ++ 0x22 :: (key ++ 0x22 :: (w2 ++ 0x3a :: (w3 ++ (v ++ w4)))) ++ c :: r
      = w1 ++ 0x22 :: (key ++ 0x22 :: (w2 ++ 0x3a :: (w3 ++ (v ++ (w4 ++ c :: r))))) := by
    simp
  rw [hcur, objectLoop, h1]
  dsimp only
  rw [if_neg hk, if_neg (by simp [enoughMemory]), h2]
  dsimp only
  rw [h3]
  dsimp only
  have hclose : consume CLOSE_BRACE (w4 ++ c :: r) = consume CLOSE_BRACE (c :: r) := hskip _
  have hcomma : consume COMMA (w4 ++ c :: r) = consume COMMA (c :: r) := hskip _
  cases hcl : consume CLOSE_BRACE (c :: r) with
  | some cur => rw [hclose, hcl]
  | none => cases hco : consume COMMA (c :: r) <;> rw [hclose, hcomma, hcl, hco]

theorem objectLoop_complete (hf : FieldComplete V R readField)
    {ps : List (Bytes × Bytes)} {ms : Bytes}
    (h : Members V ps ms) {turns : Nat} (ht : ms.length < turns) {keys : List Bytes} {s s' : σ}
    (hs : Steps R ps s s')
    (hnd : (ps.map Prod.fst).Nodup) (hk : ∀ p ∈ ps, p.1 ∉ keys) (rest : Bytes) :
    objectLoop enoughMemory readField turns keys s (ms ++ 0x7d :: rest) = .ok (s', rest) := by
  induction h generalizing turns keys s with
  | @one p m hm =>
    cases turns with
    | zero => omega
    | succ turns =>
      cases hs with
      | cons hR hs' =>
        cases hs'
        rw [objectLoop_member hf hm hR (hk _ (List.mem_cons_self ..)) turns (by decide) rest]
        have h1 : consume CLOSE_BRACE (0x7d :: rest) = some rest :=
          consume_ws (by decide) (w := []) nofun rest
        rw [h1]
  | @more p m ps ms hm hms ih =>
    cases turns with
    | zero => omega
    | succ turns =>
      cases hs with
      | @cons key v _ _ s1 _ hR hs' =>
        rw [List.append_assoc, List.cons_append,
          objectLoop_member hf hm hR (hk _ (List.mem_cons_self ..)) turns (by decide) _]
        have h1 : consume CLOSE_BRACE (0x2c :: (ms ++ 0x7d :: rest)) = none :=
          consume_other (by decide) (by decide) (w := []) nofun _
        have h2 : consume COMMA (0x2c :: (ms ++ 0x7d :: rest)) = some (ms ++ 0x7d :: rest) :=
          consume_ws (by decide) (w := []) nofun _
        rw [List.map_cons, List.nodup_cons] at hnd
        rw [h1]
        dsimp only
        rw [h2]
        refine ih ?_ hs' hnd.2 ?_
        · simp only [List.length_append, List.length_cons] at ht
          omega
        · intro p hp hmem
          rcases List.mem_cons.mp hmem with he | hmem
          · refine hnd.1 ?_
            show key ∈ _
            rw [← he]
            exact List.mem_map_of_mem hp
          · exact hk p (List.mem_cons_of_mem _ hp) hmem

theorem Members.head {ps : List (Bytes × Bytes)} {ms : Bytes} (h : Members V ps ms) :
    ∃ w t, Ws w ∧ ms = w ++ 0x22 :: t := by
  cases h with
  | one hm => obtain ⟨hw, -⟩ := hm; exact ⟨_, _, hw, rfl⟩
  | more hm _ => obtain ⟨hw, -⟩ := hm; exact ⟨_, _, hw, by rw [List.append_assoc]; rfl⟩

/-- **what `read_object` takes is an object with distinct keys** -/
theorem readObject_sound (hf : FieldSound V R readField) {s s' : σ} {cur rest : Bytes}
    (h : readObject mem readField s cur = .ok (s', rest)) :
    ∃ w ps ms, Ws w ∧ ObjectBody V ps ms ∧ (ps.map Prod.fst).Nodup ∧ Steps R ps s s' ∧
      cur = w ++ 0x7b :: (ms ++ 0x7d :: rest) := by
  unfold readObject at h
  split at h
  · cases h
  next cur1 h1 =>
  obtain ⟨w, hw, rfl⟩ := consume_split h1
  split at h
  · next r hr =>
    cases h
    obtain ⟨ms, hms, rfl⟩ := consume_split hr
    exact ⟨w, [], ms, hw, Or.inl ⟨rfl, hms⟩, List.nodup_nil, .nil, rfl⟩
  · obtain ⟨ps, ms, hms, hst, hnd, -, rfl⟩ := objectLoop_sound hf h
    exact ⟨w, ps, ms, hw, Or.inr hms, hnd, hst, rfl⟩

/-- **every object with distinct keys is taken** -/
theorem readObject_complete (hf : FieldComplete V R readField) {s s' : σ} {w ms : Bytes}
    {ps : List (Bytes × Bytes)}
    (hw : Ws w) (hb : ObjectBody V ps ms) (hnd : (ps.map Prod.fst).Nodup) (hst : Steps R ps s s')
    (rest : Bytes) :
    readObject enoughMemory readField s (w ++ 0x7b :: (ms ++ 0x7d :: rest)) = .ok (s', rest) := by
  have h1 : consume OPEN_BRACE (w ++ 0x7b :: (ms ++ 0x7d :: rest)) = some (ms ++ 0x7d :: rest) :=
    consume_ws (by decide) hw _
  unfold readObject
  rw [h1]
  dsimp only
  rcases hb with ⟨rfl, hms⟩ | hms
  · cases hst
    have h2 : consume CLOSE_BRACE (ms ++ 0x7d :: rest) = some rest :=
      consume_ws (by decide) hms rest
    rw [h2]
  · obtain ⟨w', t, hw', ht⟩ := hms.head
    have h2 : consume CLOSE_BRACE (ms ++ 0x7d :: rest) = none := by
      rw [ht, List.append_assoc]
      exact consume_other (by decide) (by decide) hw' _
    rw [h2]
    dsimp only
    refine objectLoop_complete hf hms ?_ hst hnd (fun _ _ => List.not_mem_nil) rest
    simp only [List.length_append, List.length_cons]
    omega

end

/-! ## values -/

/-- the values that are read where `levels` are left -/
def ValueAt (distinct : List Bytes → Prop) : Nat → Bytes → Prop
  | 0, _ => False
  | levels + 1, v => Value distinct levels v

theorem no_elements {V : Bytes → Prop} (hV : ∀ v, ¬ V v) {vs : List Bytes} {es : Bytes} :
    ¬ Elements V vs es := by
  intro h
  cases h with
  | one _ hv _ => exact hV _ hv
  | more _ hv _ _ => exact hV _ hv

theorem no_members {V : Bytes → Prop} (hV : ∀ v, ¬ V v) {ps : List (Bytes × Bytes)} {ms : Bytes} :
    ¬ Members V ps ms := by
  intro h
  cases h with
  | one hm => obtain ⟨-, -, -, -, hv, -⟩ := hm; exact hV _ hv
  | more hm _ => obtain ⟨-, -, -, -, hv, -⟩ := hm; exact hV _ hv

theorem value_iff (distinct : List Bytes → Prop) (depth : Nat) (v : Bytes) :
    Value distinct depth v ↔ Flat v ∨
      (∃ vs es, Elements (ValueAt distinct depth) vs es ∧ v = 0x5b :: (es ++ [0x5d])) ∨
      (∃ ps ms, Members (ValueAt distinct depth) ps ms ∧ distinct (ps.map Prod.fst) ∧
        v = 0x7b :: (ms ++ [0x7d])) := by
  cases depth with
  | zero =>
    constructor
    · exact Or.inl
    · rintro (h | ⟨vs, es, h, -⟩ | ⟨ps, ms, h, -⟩)
      · exact h
      · exact absurd h (no_elements fun _ => id)
      · exact absurd h (no_members fun _ => id)
  | succ depth => exact Iff.rfl

/-- the fields of an object that `read_value` reads -/
def valueField (mem : Nat → Bool) (levels : Nat) (_ : Bytes) (_ : Unit) (cur : Bytes) :
    Except Error (Unit × Bytes) :=
  (readValue mem levels cur).map fun cur => ((), cur)

theorem valueField_sound {mem : Nat → Bool} {levels : Nat} {V : Bytes → Prop}
    (hv : ∀ cur rest, readValue mem levels cur = .ok rest → ∃ w v, Ws w ∧ V v ∧
      cur = w ++ (v ++ rest)) :
    FieldSound V (fun _ _ _ _ => True) (valueField mem levels) := by
  intro key s cur s' rest h
  obtain ⟨r, h1, h2⟩ := map_ok h
  cases h2
  obtain ⟨w, v, hw, hV, hcur⟩ := hv _ _ h1
  exact ⟨w, v, hw, hV, trivial, hcur⟩

theorem valueField_complete {levels : Nat} {V : Bytes → Prop}
    (hv : ∀ w v r, Ws w → V v → Ends v r → readValue enoughMemory levels (w ++ (v ++ r)) = .ok r) :
    FieldComplete V (fun _ _ _ _ => True) (valueField enoughMemory levels) := by
  intro key s s' w v r hw hV _ he
  show (readValue enoughMemory levels (w ++ (v ++ r))).map _ = _
  rw [hv w v r hw hV he]
  rfl

theorem steps_true {ps : List (Bytes × Bytes)} (s s' : Unit) :
    Steps (fun _ _ _ _ => True) ps s s' := by
  induction ps with
  | nil => exact .nil
  | cons p ps ih => exact Steps.cons (R := fun _ _ _ _ => True) (show True from trivial) ih

theorem readValue_cons (mem : Nat → Bool) (levels : Nat) {c : UInt8} (h : isSpace c = false)
    {w : Bytes} (hw : Ws w) (rest : Bytes) :
    readValue mem (levels + 1) (w ++ c :: rest) =
      if c = DQUOTE then orInvalid ((readString (c :: rest)).map (·.2))
      else if c = OPEN_BRACE then (readObject mem (valueField mem levels) () (c :: rest)).map (·.2)
      else if c = OPEN_BRACKET then
        match consume CLOSE_BRACKET rest with
        | some cur => .ok cur
        | none => arrayLoop (readValue mem levels) (rest.length + 1) rest
      else orInvalid (readScalar (c :: rest)) := by
  rw [readValue, skipWhitespace_ws hw, skipWhitespace_head h]
  rfl

/-- **what `read_value` takes is a value** -/
theorem readValue_sound {mem : Nat → Bool} {levels : Nat} {cur rest : Bytes}
    (h : readValue mem levels cur = .ok rest) :
    ∃ w v, Ws w ∧ ValueAt List.Nodup levels v ∧ cur = w ++ (v ++ rest) := by
  induction levels generalizing cur rest with
  | zero => cases h
  | succ levels ih =>
    obtain ⟨w, hw, hcur, hsp⟩ := skipWhitespace_split cur
    cases hskip : skipWhitespace cur with
    | nil =>
      rw [readValue, hskip] at h
      cases h
    | cons c r =>
      rw [hskip] at hcur hsp
      subst hcur
      rw [readValue_cons mem levels (hsp c rfl) hw] at h
      split at h
      · next hc =>
        unfold orInvalid at h
        split at h
        · next x hx =>
          cases h
          obtain ⟨⟨f, l⟩, h1, rfl⟩ := Option.map_eq_some_iff.mp hx
          obtain ⟨w', hw', hf, h2⟩ := readString_split h1
          refine ⟨w ++ w', _, hw.append hw', (value_iff _ _ _).mpr (Or.inl (.string hf)), ?_⟩
          rw [h2]
          simp
        · cases h
      split at h
      · obtain ⟨⟨u, l⟩, h1, rfl⟩ := map_ok h
        obtain ⟨w', ps, ms, hw', hb, hnd, -, h2⟩ :=
          readObject_sound (valueField_sound fun _ _ => ih) h1
        refine ⟨w ++ w', 0x7b :: (ms ++ [0x7d]), hw.append hw', ?_, by rw [h2]; simp⟩
        rcases hb with ⟨rfl, hms⟩ | hms
        · exact (value_iff _ _ _).mpr (Or.inl (.emptyObject hms))
        · exact (value_iff _ _ _).mpr (Or.inr (Or.inr ⟨ps, ms, hms, hnd, rfl⟩))
      split at h
      · next hc =>
        subst hc
        split at h
        · next l hl =>
          cases h
          obtain ⟨w', hw', rfl⟩ := consume_split hl
          exact ⟨w, _, hw, (value_iff _ _ _).mpr
            (Or.inl (.emptyArray hw')), by simp [CLOSE_BRACKET, OPEN_BRACKET]⟩
        · obtain ⟨vs, es, he, rfl⟩ := arrayLoop_sound (fun _ _ => ih) h
          exact ⟨w, _, hw, (value_iff _ _ _).mpr
            (Or.inr (Or.inl ⟨vs, es, he, rfl⟩)), by simp [OPEN_BRACKET]⟩
      · unfold orInvalid at h
        split at h
        · next x hx =>
          cases h
          obtain ⟨v, hv, h1⟩ := readScalar_split hx
          exact ⟨w, v, hw, (value_iff _ _ _).mpr (Or.inl hv), by rw [h1]⟩
        · cases h

theorem Elements.head {V : Bytes → Prop}
    (hV : ∀ v, V v → ∃ c t, v = c :: t ∧ isSpace c = false ∧ c ≠ 0x5d)
    {vs : List Bytes} {es : Bytes} (h : Elements V vs es) :
    ∃ w c t, Ws w ∧ es = w ++ c :: t ∧ isSpace c = false ∧ c ≠ 0x5d := by
  cases h with
  | one hw hv _ => obtain ⟨c, t, rfl, h1, h2⟩ := hV _ hv; exact ⟨_, c, _, hw, rfl, h1, h2⟩
  | more hw hv _ _ => obtain ⟨c, t, rfl, h1, h2⟩ := hV _ hv; exact ⟨_, c, _, hw, rfl, h1, h2⟩

theorem digit_head {c : UInt8} (h : Digit c) :
    isSpace c = false ∧ c ≠ 0x5d ∧ c ≠ DQUOTE ∧ c ≠ OPEN_BRACE ∧ c ≠ OPEN_BRACKET := by
  refine ⟨?_, ?_, ?_, ?_, ?_⟩
  · rw [Bool.eq_false_iff]
    intro hs
    rcases (isSpace_iff c).mp hs with rfl | rfl | rfl | rfl <;> exact absurd h
      (by unfold Digit; decide)
  all_goals
    rintro rfl
    exact absurd h (by unfold Digit; decide)

theorem Number.head {v : Bytes} (h : Number v) : ∃ c t, v = c :: t ∧
    isSpace c = false ∧ c ≠ 0x5d ∧ c ≠ DQUOTE ∧ c ≠ OPEN_BRACE ∧ c ≠ OPEN_BRACKET := by
  cases h with
  | plus hu =>
    obtain ⟨c, t, rfl, hc⟩ := hu.head
    exact ⟨c, t, rfl, digit_head hc⟩
  | minus hu => exact ⟨0x2d, _, rfl, by decide, by decide, by decide, by decide, by decide⟩

theorem word_head {v : Bytes} (h : v = ascii "true" ∨ v = ascii "false" ∨ v = ascii "null") :
    ∃ c t, v = c :: t ∧ isSpace c = false ∧ c ≠ 0x5d ∧ c ≠ DQUOTE ∧ c ≠ OPEN_BRACE ∧
    c ≠ OPEN_BRACKET := by
  rw [ascii_true, ascii_false, ascii_null] at h
  rcases h with rfl | rfl | rfl <;>
    exact ⟨_, _, rfl, by decide, by decide, by decide, by decide, by decide⟩

/-- a value starts with neither whitespace nor a closing bracket -/
theorem Value.head {distinct : List Bytes → Prop} {depth : Nat} {v : Bytes}
    (h : Value distinct depth v) :
    ∃ c t, v = c :: t ∧ isSpace c = false ∧ c ≠ 0x5d := by
  rcases (value_iff _ _ _).mp h with h | ⟨vs, es, -, rfl⟩ | ⟨ps, ms, -, -, rfl⟩
  · cases h with
    | literal _ hv => obtain ⟨c, t, rfl, h1, h2, -⟩ := word_head hv; exact ⟨c, t, rfl, h1, h2⟩
    | number hv => obtain ⟨c, t, rfl, h1, h2, -⟩ := hv.head; exact ⟨c, t, rfl, h1, h2⟩
    | string => exact ⟨_, _, rfl, by decide, by decide⟩
    | emptyArray => exact ⟨_, _, rfl, by decide, by decide⟩
    | emptyObject => exact ⟨_, _, rfl, by decide, by decide⟩
  · exact ⟨_, _, rfl, by decide, by decide⟩
  · exact ⟨_, _, rfl, by decide, by decide⟩

/-- **every value is taken, up to its end** -/
theorem readValue_complete {levels : Nat} {w v r : Bytes} (hw : Ws w)
    (hv : ValueAt List.Nodup levels v) (he : Ends v r) :
    readValue enoughMemory levels (w ++ (v ++ r)) = .ok r := by
  induction levels generalizing w v r with
  | zero => exact hv.elim
  | succ levels ih =>
    have hscalar : ∀ u : Bytes, (∃ c t, u = c :: t ∧ isSpace c = false ∧ c ≠ 0x5d ∧ c ≠ DQUOTE ∧
      c ≠ OPEN_BRACE ∧
        c ≠ OPEN_BRACKET) → readScalar (u ++ r) = some r → readValue enoughMemory (levels + 1)
          (w ++ (u ++ r)) = .ok r := by
      rintro u ⟨c, t, rfl, h1, -, h2, h3, h4⟩ h5
      rw [List.cons_append, readValue_cons _ _ h1 hw, if_neg h2, if_neg h3, if_neg h4,
        ← List.cons_append, h5]
      rfl
    have hobject : ∀ ps ms, ObjectBody (ValueAt List.Nodup levels) ps ms → (ps.map Prod.fst).Nodup →
        readValue enoughMemory (levels + 1) (w ++ (0x7b :: (ms ++ [0x7d]) ++ r)) = .ok r := by
      intro ps ms hb hnd
      have h1 := readObject_complete (valueField_complete fun _ _ _ => ih) (w := [])
        (by exact nofun) hb hnd (steps_true () ()) r
      have h2 : 0x7b :: (ms ++ [0x7d]) ++ r = (0x7b : UInt8) :: (ms ++ 0x7d :: r) := by simp
      rw [h2, readValue_cons _ _ (by decide) hw, if_neg (by decide), if_pos (by decide)]
      rw [List.nil_append] at h1
      rw [h1]
      rfl
    rcases (value_iff _ _ _).mp hv with h | ⟨vs, es, hes, rfl⟩ | ⟨ps, ms, hms, hnd, rfl⟩
    · cases h with
      | literal _ h => exact hscalar v (word_head h) (readScalar_word h r)
      | number h => exact hscalar v h.head (readScalar_number h (he h))
      | @string f hf =>
        have h1 := readString_chars (w := []) (by exact nofun) hf r
        have h2 : 0x22 :: (f ++ [0x22]) ++ r = (0x22 : UInt8) :: (f ++ 0x22 :: r) := by simp
        rw [h2, readValue_cons _ _ (by decide) hw, if_pos (by decide)]
        rw [List.nil_append] at h1
        rw [h1]
        rfl
      | @emptyArray w' hw' =>
        have h1 : consume CLOSE_BRACKET (w' ++ 0x5d :: r) = some r := consume_ws (by decide) hw' r
        have h2 : 0x5b :: (w' ++ [0x5d]) ++ r = (0x5b : UInt8) :: (w' ++ 0x5d :: r) := by simp
        rw [h2, readValue_cons _ _ (by decide) hw, if_neg (by decide), if_neg (by decide),
          if_pos (by decide), h1]
      | @emptyObject w' hw' => exact hobject [] w' (Or.inl ⟨rfl, hw'⟩) List.nodup_nil
    · obtain ⟨w', c, t, hw', ht, hc, hne⟩ := hes.head (fun u hu => by
        cases levels with
        | zero => exact hu.elim
        | succ levels => exact Value.head hu)
      have h1 : consume CLOSE_BRACKET (es ++ 0x5d :: r) = none := by
        rw [ht, List.append_assoc]
        exact consume_other hc hne hw' _
      have h2 : 0x5b :: (es ++ [0x5d]) ++ r = (0x5b : UInt8) :: (es ++ 0x5d :: r) := by simp
      rw [h2, readValue_cons _ _ (by decide) hw, if_neg (by decide), if_neg (by decide),
        if_pos (by decide), h1]
      refine arrayLoop_complete (fun _ _ _ => ih) hes ?_ r
      simp only [List.length_append, List.length_cons]
      omega
    · exact hobject ps ms (Or.inr hms) hnd

/-- nothing longer than what was read is a value -/
theorem readValue_longest {levels : Nat} {w v r rest : Bytes} (hw : Ws w)
    (hv : ValueAt List.Nodup levels v)
    (h : readValue enoughMemory levels (w ++ (v ++ r)) = .ok rest) : rest.length ≤ r.length := by
  by_cases hn : Number v
  · cases levels with
    | zero => exact hv.elim
    | succ levels =>
      obtain ⟨c, t, hct, h1, -, h2, h3, h4⟩ := hn.head
      rw [hct, List.cons_append, readValue_cons _ _ h1 hw, if_neg h2, if_neg h3, if_neg h4,
        ← List.cons_append, ← hct] at h
      unfold orInvalid at h
      split at h
      · next x hx =>
        cases h
        exact readScalar_longest hn hx
      · cases h
  · rw [readValue_complete hw hv fun h => absurd h hn] at h
    cases h
    exact Nat.le_refl _

/-- **`read_value`, then whitespace up to the end: exactly the texts whose values stand at most
`depth` levels deep and whose objects have distinct keys** -/
theorem readValue_document (depth : Nat) (text : Bytes) :
    (∃ rest, readValue enoughMemory (depth + 1) text = .ok rest ∧ skipWhitespace rest = []) ↔
      Document List.Nodup depth text := by
  constructor
  · rintro ⟨rest, h1, h2⟩
    obtain ⟨w, v, hw, hv, hcur⟩ := readValue_sound h1
    exact ⟨w, v, rest, hw, hv, (skipWhitespace_nil_iff rest).mp h2, hcur⟩
  · rintro ⟨w, v, w', hw, hv, hw', rfl⟩
    exact ⟨w', readValue_complete hw hv fun _ => stops_only_ws hw',
      (skipWhitespace_nil_iff w').mpr hw'⟩

end Json

import CtfServer.Json.Recognize

/-!
# The grammar is unambiguous

A text is read in one way only, whatever is asked of the keys.

* `Value.unique`       two values in front of a delimiter are the same value;
* `Members.unique`     and so are the members of an object;
* `ValueAt.and`        what is asked of the keys can be asked together.
-/

set_option linter.unusedVariables false
set_option linter.unusedSimpArgs false

namespace Json

/-! ## tokens -/

/-- whitespace ends at the first byte that is none -/
theorem ws_unique {w w' r s : Bytes} {c d : UInt8} (hw : Ws w) (hw' : Ws w')
    (hc : isSpace c = false)
    (hc' : isSpace d = false) (h : w ++ c :: r = w' ++ d :: s) : w = w' ∧ c = d ∧ r = s := by
  have h1 := congrArg skipWhitespace h
  rw [skipWhitespace_ws hw, skipWhitespace_ws hw', skipWhitespace_head hc,
    skipWhitespace_head hc'] at h1
  obtain ⟨h2, h3⟩ := List.cons.inj h1
  subst h2 h3
  exact ⟨List.append_cancel_right h, rfl, rfl⟩

theorem chars_unique {f f' r s : Bytes} (hf : Chars f) (hf' : Chars f')
    (h : f ++ 0x22 :: r = f' ++ 0x22 :: s) :
    f = f' ∧ r = s := by
  have h1 := ((chars_iff f).mp hf).end r
  have h2 := ((chars_iff f').mp hf').end s
  have h3 : some r = some s := by
    rw [← h1, ← h2]
    exact congrArg strEnd h
  cases h3
  exact ⟨List.append_cancel_right h, rfl⟩

/-- what may stand behind a value: whitespace and one of `,`, `]`, `}` -/
def Delimited (r : Bytes) : Prop :=
  ∃ w c t, Ws w ∧ (c = 0x2c ∨ c = 0x5d ∨ c = 0x7d) ∧ r = w ++ c :: t

theorem Delimited.stops {r : Bytes} (h : Delimited r) : Stops r := by
  obtain ⟨w, c, t, hw, hc, rfl⟩ := h
  exact stops_ws hw hc t

/-- words and numbers -/
def IsScalar (v : Bytes) : Prop :=
  (v = ascii "true" ∨ v = ascii "false" ∨ v = ascii "null") ∨ Number v

theorem IsScalar.read {v r : Bytes} (h : IsScalar v) (hr : Stops r) :
    readScalar (v ++ r) = some r :=
  h.elim (fun h => readScalar_word h r) fun h => readScalar_number h hr

theorem IsScalar.head {v : Bytes} (h : IsScalar v) :
    ∃ c t, v = c :: t ∧ isSpace c = false ∧ c ≠ 0x5d ∧ c ≠ DQUOTE ∧ c ≠ OPEN_BRACE ∧
    c ≠ OPEN_BRACKET :=
  h.elim word_head Number.head

/-! ## values by their first byte -/

/-- the inside of an array -/
def ArrayBody (V : Bytes → Prop) (vs : List Bytes) (es : Bytes) : Prop :=
  (vs = [] ∧ Ws es) ∨ Elements V vs es

/-- the shapes of a value -/
inductive Shape (V : Bytes → Prop) (distinct : List Bytes → Prop) : Bytes → Prop where
  | scalar {v : Bytes} : IsScalar v → Shape V distinct v
  | string {f : Bytes} : Chars f → Shape V distinct (0x22 :: (f ++ [0x22]))
  | array {vs : List Bytes} {es : Bytes} : ArrayBody V vs es →
      Shape V distinct (0x5b :: (es ++ [0x5d]))
  | object {ps : List (Bytes × Bytes)} {ms : Bytes} : ObjectBody V ps ms →
      (ps = [] ∨ distinct (ps.map Prod.fst)) →
      Shape V distinct (0x7b :: (ms ++ [0x7d]))

theorem value_shape {distinct : List Bytes → Prop} {depth : Nat} {v : Bytes} :
    Value distinct depth v ↔ Shape (ValueAt distinct depth) distinct v := by
  rw [value_iff]
  constructor
  · rintro (h | ⟨vs, es, h, rfl⟩ | ⟨ps, ms, h, hd, rfl⟩)
    · cases h with
      | literal _ h => exact .scalar (Or.inl h)
      | number h => exact .scalar (Or.inr h)
      | string h => exact .string h
      | emptyArray h => exact .array (V := _) (Or.inl (And.intro (Eq.refl []) h))
      | emptyObject h => exact .object (Or.inl (And.intro (Eq.refl []) h)) (Or.inl rfl)
    · exact .array (Or.inr h)
    · exact .object (Or.inr h) (Or.inr hd)
  · intro h
    cases h with
    | scalar h => exact Or.inl (h.elim (.literal v) .number)
    | string h => exact Or.inl (.string h)
    | array h =>
      rcases h with ⟨-, h⟩ | h
      · exact Or.inl (.emptyArray h)
      · exact Or.inr (Or.inl ⟨_, _, h, rfl⟩)
    | @object ps ms h hd =>
      rcases h with ⟨-, h⟩ | h
      · exact Or.inl (.emptyObject h)
      · rcases hd with rfl | hd
        · cases h
        · exact Or.inr (Or.inr ⟨_, _, h, hd, rfl⟩)

/-! ## lists of values -/

/-- two kinds of values that are read alike in front of a delimiter -/
def Alike (V V' : Bytes → Prop) : Prop :=
  ∀ v v' r s, V v → V' v' → Delimited r → Delimited s → v ++ r = v' ++ s → v = v' ∧ r = s

/-- a value starts with neither whitespace nor a closing bracket -/
def Opens (V : Bytes → Prop) : Prop := ∀ v, V v → ∃ c t, v = c :: t ∧ isSpace c = false ∧ c ≠ 0x5d

section
variable {V V' : Bytes → Prop} (ha : Alike V V') (ho : Opens V) (ho' : Opens V')
include ha ho ho'

/-- one value with the whitespace around it, and the delimiter behind it -/
theorem item_unique {w v u w' v' u' r s : Bytes} {c d : UInt8} (hw : Ws w) (hw' : Ws w') (hv : V v)
    (hv' : V' v')
    (hu : Ws u) (hu' : Ws u') (hc : c = 0x2c ∨ c = 0x5d ∨ c = 0x7d)
    (hc' : d = 0x2c ∨ d = 0x5d ∨ d = 0x7d)
    (h : w ++ (v ++ (u ++ c :: r)) = w' ++ (v' ++ (u' ++ d :: s))) :
    w = w' ∧ v = v' ∧ u = u' ∧ c = d ∧ r = s := by
  have hsp : ∀ x : UInt8, x = 0x2c ∨ x = 0x5d ∨ x = 0x7d → isSpace x = false := by
    rintro x (rfl | rfl | rfl) <;> decide
  have hww : w = w' ∧ v ++ (u ++ c :: r) = v' ++ (u' ++ d :: s) := by
    obtain ⟨x, t, rfl, hx, -⟩ := ho v hv
    obtain ⟨x', t', rfl, hx', -⟩ := ho' v' hv'
    obtain ⟨h1, h2, h3⟩ := ws_unique hw hw' hx hx' h
    exact ⟨h1, by rw [h2, List.cons_append, List.cons_append]; exact congrArg _ h3⟩
  obtain ⟨h1, h2⟩ := hww
  obtain ⟨h3, h4⟩ := ha v v' _ _ hv hv' ⟨u, c, r, hu, hc, rfl⟩ ⟨u', d, s, hu', hc', rfl⟩ h2
  obtain ⟨h5, h6, h7⟩ := ws_unique hu hu' (hsp c hc) (hsp d hc') h4
  exact ⟨h1, h3, h5, h6, h7⟩

theorem Elements.unique {vs vs' : List Bytes} {es es' : Bytes} (h : Elements V vs es)
    (h' : Elements V' vs' es')
    {r s : Bytes} (he : es ++ 0x5d :: r = es' ++ 0x5d :: s) : vs = vs' ∧ es = es' ∧ r = s := by
  induction h generalizing vs' es' with
  | @one w v u hw hv hu =>
    cases h' with
    | @one w' v' u' hw' hv' hu' =>
      obtain ⟨rfl, rfl, rfl, -, rfl⟩ := item_unique ha ho ho' hw hw' hv hv' hu hu'
        (c := 0x5d) (d := 0x5d)
        (by decide) (by decide) (by simpa using he)
      exact ⟨rfl, rfl, rfl⟩
    | @more w' v' u' fs us hw' hv' hu' _ =>
      obtain ⟨-, -, -, hc, -⟩ := item_unique ha ho ho' hw hw' hv hv' hu hu' (c := 0x5d) (d := 0x2c)
        (s := fs ++ 0x5d :: s) (by decide) (by decide) (by simpa using he)
      exact absurd hc (by decide)
  | @more w v u es vs hw hv hu _ ih =>
    cases h' with
    | @one w' v' u' hw' hv' hu' =>
      obtain ⟨-, -, -, hc, -⟩ := item_unique ha ho ho' hw hw' hv hv' hu hu' (c := 0x2c) (d := 0x5d)
        (r := es ++ 0x5d :: r) (by decide) (by decide) (by simpa using he)
      exact absurd hc (by decide)
    | @more w' v' u' fs us hw' hv' hu' h' =>
      obtain ⟨rfl, rfl, rfl, -, h1⟩ := item_unique ha ho ho' hw hw' hv hv' hu hu'
        (c := 0x2c) (d := 0x2c)
        (r := es ++ 0x5d :: r) (s := fs ++ 0x5d :: s) (by decide) (by decide) (by simpa using he)
      obtain ⟨rfl, rfl, rfl⟩ := ih h' h1
      exact ⟨rfl, rfl, rfl⟩

/-- one member, and the delimiter behind it -/
theorem Member.unique {p p' : Bytes × Bytes} {m m' r s : Bytes} {c d : UInt8} (h : Member V p m)
    (h' : Member V' p' m')
    (hc : c = 0x2c ∨ c = 0x5d ∨ c = 0x7d) (hc' : d = 0x2c ∨ d = 0x5d ∨ d = 0x7d)
    (he : m ++ c :: r = m' ++ d :: s) :
    p = p' ∧ m = m' ∧ c = d ∧ r = s := by
  obtain @⟨w1, key, w2, w3, v, w4, hw1, hkey, hw2, hw3, hv, hw4⟩ := h
  obtain @⟨w1', key', w2', w3', v', w4', hw1', hkey', hw2', hw3', hv', hw4'⟩ := h'
  have he1 : w1 ++ 0x22 :: (key ++ 0x22 :: (w2 ++ 0x3a :: (w3 ++ (v ++ (w4 ++ c :: r))))) =
      w1' ++ 0x22 :: (key' ++ 0x22 :: (w2' ++ 0x3a :: (w3' ++ (v' ++ (w4' ++ d :: s))))) := by
    simpa using he
  obtain ⟨rfl, -, he2⟩ := ws_unique hw1 hw1' (by decide) (by decide) he1
  obtain ⟨rfl, he3⟩ := chars_unique hkey hkey' he2
  obtain ⟨rfl, -, he4⟩ := ws_unique hw2 hw2' (by decide) (by decide) he3
  obtain ⟨rfl, rfl, rfl, rfl, rfl⟩ := item_unique ha ho ho' hw3 hw3' hv hv' hw4 hw4' hc hc' he4
  exact ⟨rfl, rfl, rfl, rfl⟩

theorem Members.unique {ps ps' : List (Bytes × Bytes)} {ms ms' : Bytes} (h : Members V ps ms)
    (h' : Members V' ps' ms')
    {r s : Bytes} (he : ms ++ 0x7d :: r = ms' ++ 0x7d :: s) : ps = ps' ∧ ms = ms' ∧ r = s := by
  induction h generalizing ps' ms' with
  | @one p m hm =>
    cases h' with
    | one hm' =>
      obtain ⟨rfl, rfl, -, rfl⟩ := Member.unique ha ho ho' hm hm' (by decide) (by decide) he
      exact ⟨rfl, rfl, rfl⟩
    | @more p' m' qs ns hm' _ =>
      obtain ⟨-, -, hc, -⟩ := Member.unique ha ho ho' hm hm' (c := 0x7d) (d := 0x2c)
        (s := ns ++ 0x7d :: s)
        (by decide) (by decide) (by simpa using he)
      exact absurd hc (by decide)
  | @more p m ps ms hm _ ih =>
    cases h' with
    | @one p' m' hm' =>
      obtain ⟨-, -, hc, -⟩ := Member.unique ha ho ho' hm hm' (c := 0x2c) (d := 0x7d)
        (r := ms ++ 0x7d :: r)
        (by decide) (by decide) (by simpa using he)
      exact absurd hc (by decide)
    | @more p' m' qs ns hm' h' =>
      obtain ⟨rfl, rfl, -, h1⟩ := Member.unique ha ho ho' hm hm' (c := 0x2c) (d := 0x2c)
        (r := ms ++ 0x7d :: r)
        (s := ns ++ 0x7d :: s) (by decide) (by decide) (by simpa using he)
      obtain ⟨rfl, rfl, rfl⟩ := ih h' h1
      exact ⟨rfl, rfl, rfl⟩

theorem ArrayBody.unique {vs vs' : List Bytes} {es es' : Bytes} (h : ArrayBody V vs es)
    (h' : ArrayBody V' vs' es')
    {r s : Bytes} (he : es ++ 0x5d :: r = es' ++ 0x5d :: s) : vs = vs' ∧ es = es' ∧ r = s := by
  rcases h with ⟨rfl, h⟩ | h <;> rcases h' with ⟨rfl, h'⟩ | h'
  · obtain ⟨rfl, -, rfl⟩ := ws_unique h h' (by decide) (by decide) he
    exact ⟨rfl, rfl, rfl⟩
  · obtain ⟨w, c, t, hw, rfl, hc, hne⟩ := h'.head ho'
    obtain ⟨-, h1, -⟩ := ws_unique (c := 0x5d) h hw (by decide) hc (by simpa using he)
    exact absurd h1.symm hne
  · obtain ⟨w, c, t, hw, rfl, hc, hne⟩ := h.head ho
    obtain ⟨-, h1, -⟩ := ws_unique (d := 0x5d) hw h' hc (by decide) (by simpa using he)
    exact absurd h1 hne
  · exact Elements.unique ha ho ho' h h' he

theorem ObjectBody.unique {ps ps' : List (Bytes × Bytes)} {ms ms' : Bytes} (h : ObjectBody V ps ms)
    (h' : ObjectBody V' ps' ms') {r s : Bytes} (he : ms ++ 0x7d :: r = ms' ++ 0x7d :: s) :
    ps = ps' ∧ ms = ms' ∧ r = s := by
  rcases h with ⟨rfl, h⟩ | h <;> rcases h' with ⟨rfl, h'⟩ | h'
  · obtain ⟨rfl, -, rfl⟩ := ws_unique h h' (by decide) (by decide) he
    exact ⟨rfl, rfl, rfl⟩
  · obtain ⟨w, t, hw, rfl⟩ := h'.head
    obtain ⟨-, h1, -⟩ := ws_unique (c := 0x7d) (d := 0x22) h hw (by decide) (by decide)
      (by simpa using he)
    exact absurd h1 (by decide)
  · obtain ⟨w, t, hw, rfl⟩ := h.head
    obtain ⟨-, h1, -⟩ := ws_unique (c := 0x22) (d := 0x7d) hw h' (by decide) (by decide)
      (by simpa using he)
    exact absurd h1 (by decide)
  · exact Members.unique ha ho ho' h h' he

end

/-! ## values -/

theorem valueAt_opens (distinct : List Bytes → Prop) (levels : Nat) :
    Opens (ValueAt distinct levels) := by
  intro v hv
  cases levels with
  | zero => exact hv.elim
  | succ levels => exact Value.head hv

/-- where a number cannot go on, only one shape can stand -/
theorem shape_unique {V V' : Bytes → Prop} {distinct distinct' : List Bytes → Prop}
    (ha : Alike V V') (ho : Opens V)
    (ho' : Opens V') {v v' r s : Bytes} (h : Shape V distinct v) (h' : Shape V' distinct' v')
    (hr : Stops r) (hr' : Stops s) (he : v ++ r = v' ++ s) : v = v' ∧ r = s := by
  -- a scalar starts with none of the three opening bytes
  have hother : ∀ {u t : Bytes} {x : UInt8}, IsScalar u →
    (x = DQUOTE ∨ x = OPEN_BRACE ∨ x = OPEN_BRACKET) →
      ∀ s, u ++ s ≠ x :: t := by
    intro u t x hu hx s hut
    obtain ⟨c, l, rfl, -, -, h1, h2, h3⟩ := hu.head
    obtain ⟨h4, -⟩ := List.cons.inj hut
    subst h4
    rcases hx with hx | hx | hx
    · exact h1 hx
    · exact h2 hx
    · exact h3 hx
  cases h with
  | scalar h =>
    cases h' with
    | scalar h' =>
      have h1 := h.read hr
      rw [he, h'.read hr'] at h1
      cases h1
      exact ⟨List.append_cancel_right he, rfl⟩
    | string => exact absurd he (hother h (Or.inl rfl) _)
    | array => exact absurd he (hother h (Or.inr (Or.inr rfl)) _)
    | object => exact absurd he (hother h (Or.inr (Or.inl rfl)) _)
  | @string f hf =>
    cases h' with
    | scalar h' => exact absurd he.symm (hother h' (Or.inl rfl) _)
    | @string f' hf' =>
      obtain ⟨rfl, rfl⟩ := chars_unique (r := r) (s := s) hf hf' (by simpa using he)
      exact ⟨rfl, rfl⟩
    | array => exact absurd (List.cons.inj he).1 (by decide)
    | object => exact absurd (List.cons.inj he).1 (by decide)
  | @array vs es hb =>
    cases h' with
    | scalar h' => exact absurd he.symm (hother h' (Or.inr (Or.inr rfl)) _)
    | string => exact absurd (List.cons.inj he).1 (by decide)
    | @array vs' es' hb' =>
      obtain ⟨-, rfl, rfl⟩ := hb.unique ha ho ho' hb' (r := r) (s := s) (by simpa using he)
      exact ⟨rfl, rfl⟩
    | object => exact absurd (List.cons.inj he).1 (by decide)
  | @object ps ms hb hd =>
    cases h' with
    | scalar h' => exact absurd he.symm (hother h' (Or.inr (Or.inl rfl)) _)
    | string => exact absurd (List.cons.inj he).1 (by decide)
    | array => exact absurd (List.cons.inj he).1 (by decide)
    | @object ps' ms' hb' hd' =>
      obtain ⟨-, rfl, rfl⟩ := hb.unique ha ho ho' hb' (r := r) (s := s) (by simpa using he)
      exact ⟨rfl, rfl⟩

theorem valueAt_unique (distinct distinct' : List Bytes → Prop) (levels levels' : Nat) :
    Alike (ValueAt distinct levels) (ValueAt distinct' levels') := by
  induction levels generalizing levels' with
  | zero => exact fun _ _ _ _ h => h.elim
  | succ levels ih =>
    cases levels' with
    | zero => exact fun _ _ _ _ _ h => h.elim
    | succ levels' =>
      intro v v' r s h h' hr hr' he
      exact shape_unique (ih levels') (valueAt_opens _ _) (valueAt_opens _ _) (value_shape.mp h)
        (value_shape.mp h')
        hr.stops hr'.stops he

/-- **where a number cannot go on, only one value can stand** -/
theorem Value.unique_stops {distinct distinct' : List Bytes → Prop} {depth depth' : Nat}
    {v v' r s : Bytes}
    (h : Value distinct depth v) (h' : Value distinct' depth' v') (hr : Stops r) (hr' : Stops s)
    (he : v ++ r = v' ++ s) :
    v = v' ∧ r = s :=
  shape_unique (valueAt_unique distinct distinct' depth depth') (valueAt_opens _ _)
    (valueAt_opens _ _)
    (value_shape.mp h) (value_shape.mp h') hr hr' he

/-- **in front of a delimiter only one value can stand** -/
theorem Value.unique {distinct distinct' : List Bytes → Prop} {depth depth' : Nat}
    {v v' r s : Bytes}
    (h : Value distinct depth v) (h' : Value distinct' depth' v') (hr : Delimited r)
    (hr' : Delimited s) (he : v ++ r = v' ++ s) : v = v' ∧ r = s :=
  valueAt_unique distinct distinct' (depth + 1) (depth' + 1) v v' r s h h' hr hr' he

theorem Elements.both {V V' W : Bytes → Prop} (hW : ∀ v, V v → V' v → W v) {vs : List Bytes}
    {es es' : Bytes} (h : Elements V vs es) (h' : Elements V' vs es') : Elements W vs es := by
  induction h generalizing es' with
  | one hw hv hw' =>
    cases h' with
    | one _ hv' _ => exact .one hw (hW _ hv hv') hw'
    | more _ hv' _ h' => cases h'
  | more hw hv hw' he ih =>
    cases h' with
    | one => cases he
    | more _ hv' _ h' => exact .more hw (hW _ hv hv') hw' (ih h')

theorem Member.both {V V' W : Bytes → Prop} (hW : ∀ v, V v → V' v → W v) {p : Bytes × Bytes}
    {m m' : Bytes} (h : Member V p m) (h' : Member V' p m') : Member W p m := by
  obtain ⟨hw1, hkey, hw2, hw3, hv, hw4⟩ := h
  obtain ⟨-, -, -, -, hv', -⟩ := h'
  exact .mk hw1 hkey hw2 hw3 (hW _ hv hv') hw4

theorem Members.both {V V' W : Bytes → Prop} (hW : ∀ v, V v → V' v → W v)
    {ps : List (Bytes × Bytes)} {ms ms' : Bytes}
    (h : Members V ps ms) (h' : Members V' ps ms') : Members W ps ms := by
  induction h generalizing ms' with
  | one hm =>
    cases h' with
    | one hm' => exact .one (hm.both hW hm')
    | more _ h' => cases h'
  | more hm hms ih =>
    cases h' with
    | one => cases hms
    | more hm' h' => exact .more (hm.both hW hm') (ih h')

theorem ObjectBody.both {V V' W : Bytes → Prop} (hW : ∀ v, V v → V' v → W v)
    {ps : List (Bytes × Bytes)} {ms ms' : Bytes}
    (h : ObjectBody V ps ms) (h' : ObjectBody V' ps ms') : ObjectBody W ps ms := by
  rcases h with h | h
  · exact Or.inl h
  · rcases h' with ⟨rfl, -⟩ | h'
    · cases h
    · exact Or.inr (h.both hW h')

/-- **what holds of the keys in one reading and what holds in another holds in one reading** -/
theorem ValueAt.and {distinct distinct' : List Bytes → Prop} {levels : Nat} {v : Bytes}
    (h : ValueAt distinct levels v) (h' : ValueAt distinct' levels v) :
    ValueAt (fun keys => distinct keys ∧ distinct' keys) levels v := by
  induction levels generalizing v with
  | zero => exact h
  | succ levels ih =>
    have ha := valueAt_unique distinct distinct' levels levels
    have ho := valueAt_opens distinct levels
    have ho' := valueAt_opens distinct' levels
    obtain h0 | ⟨vs, es, hes, hv⟩ | ⟨ps, ms, hms, hd, hv⟩ := (value_iff _ _ _).mp h
    · exact (value_iff _ _ _).mpr (Or.inl h0)
    · obtain h0' | ⟨vs', es', hes', hv'⟩ | ⟨ps', ms', hms', hd', hv'⟩ := (value_iff _ _ _).mp h'
      · exact (value_iff _ _ _).mpr (Or.inl h0')
      · obtain ⟨rfl, rfl, -⟩ := Elements.unique ha ho ho' hes hes' (r := []) (s := [])
          (List.cons.inj (hv ▸ hv')).2
        exact (value_iff _ _ _).mpr (Or.inr (Or.inl ⟨vs, es, hes.both (fun _ => ih) hes', hv⟩))
      · rw [hv] at hv'
        exact absurd (List.cons.inj hv').1 (by decide)
    · obtain h0' | ⟨vs', es', hes', hv'⟩ | ⟨ps', ms', hms', hd', hv'⟩ := (value_iff _ _ _).mp h'
      · exact (value_iff _ _ _).mpr (Or.inl h0')
      · rw [hv] at hv'
        exact absurd (List.cons.inj hv').1 (by decide)
      · obtain ⟨rfl, rfl, -⟩ := Members.unique ha ho ho' hms hms' (r := []) (s := [])
          (List.cons.inj (hv ▸ hv')).2
        exact (value_iff _ _ _).mpr
          (Or.inr (Or.inr ⟨ps, ms, hms.both (fun _ => ih) hms', ⟨hd, hd'⟩, hv⟩))

theorem Elements.mono {V W : Bytes → Prop} (hW : ∀ v, V v → W v) {vs : List Bytes} {es : Bytes}
    (h : Elements V vs es) :
    Elements W vs es := h.both (fun v hv _ => hW v hv) h

theorem Members.mono {V W : Bytes → Prop} (hW : ∀ v, V v → W v)
    {ps : List (Bytes × Bytes)} {ms : Bytes}
    (h : Members V ps ms) : Members W ps ms := h.both (fun v hv _ => hW v hv) h

theorem ValueAt.mono {distinct distinct' : List Bytes → Prop}
    (hd : ∀ keys, distinct keys → distinct' keys) {levels : Nat}
    {v : Bytes} (h : ValueAt distinct levels v) : ValueAt distinct' levels v := by
  induction levels generalizing v with
  | zero => exact h
  | succ levels ih =>
    obtain h | ⟨vs, es, hes, rfl⟩ | ⟨ps, ms, hms, hk, rfl⟩ := (value_iff _ _ _).mp h
    · exact (value_iff _ _ _).mpr (Or.inl h)
    · exact (value_iff _ _ _).mpr (Or.inr (Or.inl ⟨vs, es, hes.mono fun _ => ih, rfl⟩))
    · exact (value_iff _ _ _).mpr (Or.inr (Or.inr ⟨ps, ms, hms.mono (fun _ => ih), hd _ hk, rfl⟩))

end Json

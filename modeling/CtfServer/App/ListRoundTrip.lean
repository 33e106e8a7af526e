import CtfServer.App.ListReader

/-!
# Lists of challenges, written and read back

`json_to_challenges` passes over an element by counting braces, and counts those inside strings.
Where the count ends in front of the end of the element, the rest of a string is read as a list.

* `Items`               what the loop over the elements reads, without turns;
* `Survives`            the lists that are read back;
* `items_survives`      the loop reads a list back exactly when it survives;
* `challengesToJson_read_back_iff`    the writer and the reader together.
-/

set_option linter.unusedVariables false
set_option linter.unusedSimpArgs false

namespace App

open Json
open Buffer (Malloc)

/-! ## where the count of braces ends -/

section
variable {opening closing : UInt8}

theorem skipNested_zero (s : Bytes) : skipNested opening closing 0 s = some s := by
  cases s with
  | nil => exact rfl
  | cons c s => exact rfl

theorem skipNested_some {depth : Nat} {s q : Bytes}
    (h : skipNested opening closing (depth + 1) s = some q) :
    ∃ x, s = x ++ closing :: q := by
  induction s generalizing depth with
  | nil => cases h
  | cons c s ih =>
    rw [skipNested] at h
    split at h
    · obtain ⟨x, rfl⟩ := ih h
      exact ⟨c :: x, rfl⟩
    split at h
    · next hc =>
      subst hc
      cases depth with
      | zero =>
        rw [skipNested_zero] at h
        cases h
        exact ⟨[], rfl⟩
      | succ depth =>
        obtain ⟨x, rfl⟩ := ih h
        exact ⟨c :: x, rfl⟩
    · obtain ⟨x, rfl⟩ := ih h
      exact ⟨c :: x, rfl⟩

theorem skipNested_ends {depth : Nat} {a q : Bytes}
    (h : skipNested opening closing depth a = some q) (b : Bytes) :
    skipNested opening closing depth (a ++ b) = some (q ++ b) := by
  induction a generalizing depth with
  | nil =>
    cases depth with
    | zero =>
      cases h
      exact skipNested_zero b
    | succ depth => cases h
  | cons c a ih =>
    cases depth with
    | zero =>
      rw [skipNested_zero] at h ⊢
      cases h
      exact rfl
    | succ depth =>
      rw [skipNested] at h
      rw [List.cons_append, skipNested]
      split
      · next hc => exact ih (by rwa [if_pos hc] at h)
      next hc =>
      rw [if_neg hc] at h
      split
      · next hc' => exact ih (by rwa [if_pos hc'] at h)
      next hc' => exact ih (by rwa [if_neg hc'] at h)

theorem skipNested_open {depth : Nat} {a : Bytes}
    (h : skipNested opening closing (depth + 1) a = none) :
    ∃ deep, ∀ b, skipNested opening closing (depth + 1) (a ++ b) = skipNested opening closing
      (deep + 1) b := by
  induction a generalizing depth with
  | nil => exact ⟨depth, fun b => rfl⟩
  | cons c a ih =>
    rw [skipNested] at h
    split at h
    · next hc =>
      obtain ⟨deep, hdeep⟩ := ih h
      refine ⟨deep, fun b => ?_⟩
      rw [List.cons_append, skipNested, if_pos hc]
      exact hdeep b
    next hc =>
    split at h
    · next hc' =>
      cases depth with
      | zero =>
        rw [skipNested_zero] at h
        cases h
      | succ depth =>
        obtain ⟨deep, hdeep⟩ := ih h
        refine ⟨deep, fun b => ?_⟩
        rw [List.cons_append, skipNested, if_neg hc, if_pos hc']
        exact hdeep b
    next hc' =>
    obtain ⟨deep, hdeep⟩ := ih h
    refine ⟨deep, fun b => ?_⟩
    rw [List.cons_append, skipNested, if_neg hc, if_neg hc']
    exact hdeep b

/-- the count over two texts ends in the first or goes on in the second -/
theorem skipNested_append {depth : Nat} {a b q : Bytes}
    (h : skipNested opening closing (depth + 1) (a ++ b) = some q) :
    (∃ p, skipNested opening closing (depth + 1) a = some p ∧ q = p ++ b) ∨
      (skipNested opening closing (depth + 1) a = none ∧ ∃ deep, skipNested opening closing
        (deep + 1) b = some q) := by
  cases ha : skipNested opening closing (depth + 1) a with
  | some p =>
    rw [skipNested_ends ha] at h
    exact Or.inl ⟨p, rfl, (Option.some.inj h).symm⟩
  | none =>
    obtain ⟨deep, hdeep⟩ := skipNested_open ha
    rw [hdeep] at h
    exact Or.inr ⟨rfl, deep, h⟩

end

/-! ## the text of a list -/

/-- the text of an element behind its opening brace -/
def inner (challenge : Challenge) : Bytes :=
  membersText (challengeMembers challenge) ++ [CLOSE_BRACE]

/-- the rest of a list, in front of the comma of its next element -/
def restText : List Challenge → Bytes
  | [] => [CLOSE_BRACKET]
  | challenge :: challenges => COMMA :: OPEN_BRACE :: (inner challenge ++ restText challenges)

theorem challengeToJson_inner (challenge : Challenge) :
    challengeToJson challenge = OPEN_BRACE :: inner challenge :=
  challengeToJson_text challenge

theorem challengesToJson_text (challenge : Challenge) (challenges : List Challenge) :
    challengesToJson (challenge :: challenges) = OPEN_BRACKET :: OPEN_BRACE ::
    (inner challenge ++ restText challenges) := by
  have hopen : ascii "[" = [OPEN_BRACKET] := by decide +kernel
  have hclose : ascii "]" = [CLOSE_BRACKET] := by decide +kernel
  have hcomma : ascii "," = [COMMA] := by decide +kernel
  have hrest : ∀ challenge : Challenge, ∀ challenges : List Challenge,
      (ascii ",").intercalate ((challenge :: challenges).map challengeToJson) ++ [CLOSE_BRACKET] =
        OPEN_BRACE :: (inner challenge ++ restText challenges) := by
    intro challenge challenges
    induction challenges generalizing challenge with
    | nil =>
      rw [List.map_cons, List.map_nil, List.intercalate_singleton, challengeToJson_inner]
      rfl
    | cons next challenges ih =>
      rw [List.map_cons, List.intercalate_cons_of_ne_nil (by simp), List.append_assoc, ih, hcomma,
        challengeToJson_inner]
      simp [restText]
  show ascii "[" ++ (ascii ",").intercalate ((challenge :: challenges).map challengeToJson) ++
    ascii "]" = _
  rw [hopen, hclose, List.append_assoc, hrest]
  rfl

/-! ## what the loops read -/

/-- bytes that both loops pass over -/
def isBlank (c : UInt8) : Bool := isSpace c || c == COMMA

/-- the loop of `json_to_challenges` -/
inductive Items : Bytes → List Challenge → Prop where
  | nil : Items [] []
  | close (r : Bytes) : Items (CLOSE_BRACKET :: r) []
  | pass {c : UInt8} {r : Bytes} {items : List Challenge} : isBlank c = true → Items r items →
      Items (c :: r) items
  | element {challenge : Challenge} {r r' : Bytes} {items : List Challenge} :
      jsonToChallenge (OPEN_BRACE :: r) = some challenge →
      skipJsonValue (OPEN_BRACE :: r) = some r' →
      Items r' items → Items (OPEN_BRACE :: r) (challenge :: items)

theorem Items.spaces {cur : Bytes} {items : List Challenge} (h : Items (skipWhitespace cur) items) :
    Items cur items := by
  induction cur with
  | nil => exact h
  | cons c cur ih =>
    by_cases hc : isSpace c = true
    · rw [skipWhitespace_space hc] at h
      exact .pass (by rw [isBlank, hc]; rfl) (ih h)
    · rwa [skipWhitespace_head (Bool.not_eq_true _ ▸ hc)] at h

theorem Items.unspaced {cur : Bytes} {items : List Challenge} (h : Items cur items) :
    Items (skipWhitespace cur) items := by
  induction h with
  | nil => exact .nil
  | close r =>
    rw [skipWhitespace_head (by decide)]
    exact .close r
  | @pass c r items hc hitems ih =>
    by_cases hspace : isSpace c = true
    · rwa [skipWhitespace_space hspace]
    · rw [skipWhitespace_head (Bool.not_eq_true _ ▸ hspace)]
      exact .pass hc hitems
  | element hj hs hitems ih =>
    rw [skipWhitespace_head (by decide)]
    exact .element hj hs hitems

theorem jsonToChallenge_brace {c : UInt8} {r : Bytes} {challenge : Challenge}
    (hc : isSpace c = false) (h : jsonToChallenge (c :: r) = some challenge) : c = OPEN_BRACE := by
  unfold jsonToChallenge consume at h
  rw [skipWhitespace_head hc] at h
  by_cases h1 : c = OPEN_BRACE
  · exact h1
  · simp only [if_neg h1] at h
    cases h

theorem skipJsonValue_brace (r : Bytes) :
    skipJsonValue (OPEN_BRACE :: r) = skipNested OPEN_BRACE CLOSE_BRACE 1 r := by
  unfold skipJsonValue
  rw [skipWhitespace_head (by decide)]
  simp only [show OPEN_BRACE ≠ DQUOTE by decide, if_false, if_true]

theorem skipJsonValue_shorter {r q : Bytes} (h : skipJsonValue (OPEN_BRACE :: r) = some q) :
    q.length < r.length := by
  rw [skipJsonValue_brace] at h
  obtain ⟨x, rfl⟩ := skipNested_some h
  rw [List.length_append, List.length_cons]
  omega

theorem skipWhitespace_cases {cur : Bytes} {c : UInt8} {rest : Bytes}
    (h : skipWhitespace cur = c :: rest) :
    isSpace c = false ∧ rest.length < cur.length := by
  have hlen := skipWhitespace_length cur
  rw [h, List.length_cons] at hlen
  refine ⟨?_, hlen⟩
  have h1 := List.head?_dropWhile_not isSpace cur
  unfold skipWhitespace at h
  rw [h] at h1
  simpa using h1

/-! ## the items, by the first byte -/

theorem Items.nil_iff {items : List Challenge} : Items [] items ↔ items = [] := by
  constructor
  · rintro ⟨⟩
    rfl
  · rintro rfl
    exact .nil

theorem Items.close_iff {r : Bytes} {items : List Challenge} :
    Items (CLOSE_BRACKET :: r) items ↔ items = [] := by
  constructor
  · intro h
    cases h with
    | close => rfl
    | pass hb _ => exact absurd hb (by decide)
  · rintro rfl
    exact .close r

theorem Items.comma_iff {r : Bytes} {items : List Challenge} :
    Items (COMMA :: r) items ↔ Items r items := by
  constructor
  · intro h
    cases h with
    | pass _ h => exact h
  · exact .pass (by decide)

theorem Items.element_iff {c : UInt8} {r : Bytes} {items : List Challenge} (hc : isSpace c = false)
    (hclose : c ≠ CLOSE_BRACKET) (hcomma : c ≠ COMMA) :
    Items (c :: r) items ↔ ∃ challenge q rest, jsonToChallenge (c :: r) = some challenge ∧
      skipJsonValue (c :: r) = some q ∧ Items q rest ∧ items = challenge :: rest := by
  constructor
  · intro h
    cases h with
    | close => exact absurd rfl hclose
    | pass hb _ =>
      rw [isBlank, hc, Bool.false_or, beq_iff_eq] at hb
      exact absurd hb hcomma
    | element hj hs hrest => exact ⟨_, _, _, hj, hs, hrest, rfl⟩
  · rintro ⟨challenge, q, rest, hj, hs, hrest, rfl⟩
    obtain rfl := jsonToChallenge_brace hc hj
    exact .element hj hs hrest

theorem grow_enough (capacity count : Nat) :
    ∃ capacity', grow enoughMemory capacity count = some capacity' := by
  unfold grow enoughMemory
  split <;> exact ⟨_, rfl⟩

/-- nothing more is read -/
theorem nothing_more {read res : List Challenge} :
    some read = some res ↔ ∃ items, res = read ++ items ∧ items = [] := by
  constructor
  · intro h
    cases h
    exact ⟨[], (List.append_nil _).symm, rfl⟩
  · rintro ⟨items, rfl, rfl⟩
    rw [List.append_nil]

/-- the turns of the loop never run out, and the array always grows -/
theorem listLoop_iff {turns capacity : Nat} {read res : List Challenge} {cur : Bytes}
    (ht : cur.length ≤ turns) :
    listLoop enoughMemory turns capacity read cur = some res ↔ ∃ items, res = read ++ items ∧
      Items cur items := by
  induction turns generalizing capacity read cur with
  | zero =>
    obtain rfl := List.length_eq_zero_iff.mp (Nat.le_zero.mp ht)
    simp only [listLoop, Items.nil_iff]
    exact nothing_more
  | succ turns ih =>
    cases cur with
    | nil =>
      simp only [listLoop, Items.nil_iff]
      exact nothing_more
    | cons x cur =>
      have hitems : ∀ items, Items (x :: cur) items ↔ Items (skipWhitespace (x :: cur)) items :=
        fun items => ⟨Items.unspaced, Items.spaces⟩
      rw [listLoop]
      simp only [hitems]
      cases hskip : skipWhitespace (x :: cur) with
      | nil =>
        simp only [Items.nil_iff]
        exact nothing_more
      | cons c rest =>
        obtain ⟨hc, hlen⟩ := skipWhitespace_cases hskip
        have hrest : rest.length ≤ turns := by omega
        by_cases hclose : c = CLOSE_BRACKET
        · subst hclose
          simp only [if_true, Items.close_iff]
          exact nothing_more
        by_cases hcomma : c = COMMA
        · subst hcomma
          simp only [if_neg hclose, if_true, Items.comma_iff]
          exact ih hrest
        obtain ⟨capacity', hgrow⟩ := grow_enough capacity read.length
        simp only [if_neg hclose, if_neg hcomma, hgrow, Items.element_iff hc hclose hcomma]
        constructor
        · intro h
          cases hj : jsonToChallenge (c :: rest) with
          | none =>
            rw [hj] at h
            cases h
          | some challenge =>
            obtain rfl := jsonToChallenge_brace hc hj
            cases hs : skipJsonValue (OPEN_BRACE :: rest) with
            | none =>
              rw [hj, hs] at h
              cases h
            | some q =>
              have hq := skipJsonValue_shorter hs
              simp only [hj, hs] at h
              obtain ⟨items, rfl, hitems⟩ := (ih (by omega)).mp h
              exact ⟨challenge :: items, List.append_assoc .., challenge, q, items, rfl,
                rfl, hitems, rfl⟩
        · rintro ⟨items, rfl, challenge, q, more, hj, hs, hmore, rfl⟩
          obtain rfl := jsonToChallenge_brace hc hj
          have hq := skipJsonValue_shorter hs
          simp only [hj, hs]
          exact (ih (by omega)).mpr ⟨more, by rw [List.append_assoc]; rfl, hmore⟩

/-! ## the rest of a string, read as a list -/

/-- `count` objects without members among blanks, and the end of the list -/
inductive Blanks : Nat → Bytes → Prop where
  | close (r : Bytes) : Blanks 0 (CLOSE_BRACKET :: r)
  | pass {count : Nat} {c : UInt8} {r : Bytes} : isBlank c = true → Blanks count r →
      Blanks count (c :: r)
  | object {count : Nat} {w r : Bytes} : (∀ c ∈ w, isBlank c = true) → Blanks count r →
      Blanks (count + 1) (OPEN_BRACE :: (w ++ CLOSE_BRACE :: r))

theorem Blanks.append {count : Nat} {q : Bytes} (h : Blanks count q) (b : Bytes) :
    Blanks count (q ++ b) := by
  induction h with
  | close r => exact .close _
  | pass hc _ ih => exact .pass hc ih
  | @object count w r hw _ ih =>
    have h1 := Blanks.object hw ih
    rw [List.cons_append, List.append_assoc]
    exact h1

theorem isBlank_cases {c : UInt8} (h : isBlank c = true) : c ≠ OPEN_BRACE ∧ c ≠ CLOSE_BRACE := by
  constructor <;> (rintro rfl; exact absurd h (by decide))

theorem challengeLoop_space {turns : Nat} {challenge : Challenge} {c : UInt8}
    (hc : isSpace c = true) {r : Bytes}
    (hr : r ≠ []) : challengeLoop turns challenge (c :: r) = challengeLoop turns challenge r := by
  cases r with
  | nil => exact absurd rfl hr
  | cons x r =>
    cases turns with
    | zero => exact rfl
    | succ turns => rw [challengeLoop, challengeLoop, skipWhitespace_space hc]

theorem challengeLoop_blanks {turns : Nat} {challenge : Challenge} {w : Bytes}
    (hw : ∀ c ∈ w, isBlank c = true) (r : Bytes)
    (ht : w.length < turns) : challengeLoop turns challenge (w ++ CLOSE_BRACE :: r) =
    some challenge := by
  induction w generalizing turns with
  | nil =>
    cases turns with
    | zero => exact absurd ht (Nat.not_lt_zero _)
    | succ turns =>
      rw [List.nil_append, challengeLoop, skipWhitespace_head (by decide)]
      exact if_pos rfl
  | cons c w ih =>
    obtain ⟨hc, hw⟩ := List.forall_mem_cons.mp hw
    rw [List.length_cons] at ht
    by_cases hspace : isSpace c = true
    · rw [List.cons_append, challengeLoop_space hspace (by simp)]
      exact ih hw (by omega)
    · cases turns with
      | zero => exact absurd ht (Nat.not_lt_zero _)
      | succ turns =>
        have hcomma : c = COMMA := by
          rw [isBlank, Bool.eq_false_iff.mpr hspace, Bool.false_or, beq_iff_eq] at hc
          exact hc
        rw [List.cons_append, challengeLoop, skipWhitespace_head (Bool.eq_false_iff.mpr hspace)]
        simp only [hcomma, show COMMA ≠ CLOSE_BRACE by decide, if_false, if_true]
        exact ih hw (by omega)

theorem skipNested_blanks {w : Bytes} (hw : ∀ c ∈ w, isBlank c = true) (r : Bytes) :
    skipNested OPEN_BRACE CLOSE_BRACE 1 (w ++ CLOSE_BRACE :: r) = some r := by
  induction w with
  | nil =>
    rw [List.nil_append, skipNested, if_neg (by decide), if_pos rfl]
    exact skipNested_zero r
  | cons c w ih =>
    obtain ⟨hc, hw⟩ := List.forall_mem_cons.mp hw
    obtain ⟨h1, h2⟩ := isBlank_cases hc
    rw [List.cons_append, skipNested, if_neg h1, if_neg h2]
    exact ih hw

/-- objects without members are read as challenges without anything -/
theorem Blanks.items {count : Nat} {q : Bytes} (h : Blanks count q) :
    Items q (List.replicate count .zero) := by
  induction h with
  | close r => exact .close r
  | pass hc _ ih => exact .pass hc ih
  | @object count w r hw _ ih =>
    refine .element ?_ ?_ ih
    · unfold jsonToChallenge
      rw [consume_head (by decide)]
      exact challengeLoop_blanks hw r (by rw [List.length_append]; omega)
    · rw [skipJsonValue_brace]
      exact skipNested_blanks hw r

/-- the rest of a string, behind a brace in it, and what stands behind the string -/
inductive Inside : Bytes → Prop where
  | mk {y : Bytes} (a : UInt8) (z : Bytes) : Literal y → a ≠ COLON → isSpace a = false →
      Inside (y ++ DQUOTE :: COMMA :: DQUOTE :: a :: z)

theorem isBlank_plain {c : UInt8} (h : isBlank c = true) : c ≠ BACKSLASH ∧ ¬ 0x80 ≤ c := by
  have hall : ∀ n : Fin 256, isBlank (UInt8.ofNat n.val) = true →
      UInt8.ofNat n.val ≠ BACKSLASH ∧ ¬ 0x80 ≤ UInt8.ofNat n.val := by decide +kernel
  have h2 := hall ⟨c.toNat, c.toNat_lt⟩
  rw [UInt8.ofNat_toNat] at h2
  exact h2 h

/-- an object that begins in a string ends in it, and has no members -/
theorem challengeLoop_inside {turns : Nat} {challenge challenge' : Challenge} {y : Bytes}
    {a : UInt8} {z : Bytes} (hy : Literal y) (ha : a ≠ COLON) (hspace : isSpace a = false)
    (h : challengeLoop turns challenge (y ++ DQUOTE :: COMMA :: DQUOTE :: a :: z) =
      some challenge') :
    challenge' = challenge ∧ ∃ w y', y = w ++ CLOSE_BRACE :: y' ∧ (∀ c ∈ w, isBlank c = true) ∧
      Literal y' := by
  induction y generalizing turns with
  | nil =>
    cases turns with
    | zero => cases h
    | succ turns =>
      have hread : readString (DQUOTE :: COMMA :: DQUOTE :: a :: z) = some ([COMMA], a :: z) :=
        readString_chars (f := [COMMA]) (show Ws [] from nofun) (chars_plain (by decide +kernel)) _
      rw [List.nil_append, challengeLoop, skipWhitespace_head (by decide)] at h
      simp only [show DQUOTE ≠ CLOSE_BRACE by decide, show DQUOTE ≠ COMMA by decide, if_false,
        hread, consume,
        skipWhitespace_head hspace, ha] at h
      cases h
  | cons c y ih =>
    by_cases hc : isSpace c = true
    · have hblank : isBlank c = true := by rw [isBlank, hc]; rfl
      rw [List.cons_append, challengeLoop_space hc (by simp)] at h
      obtain ⟨h1, w, y', rfl, hw, hy'⟩ :=
        ih (hy.plain_tail (isBlank_plain hblank).1 (isBlank_plain hblank).2).2 h
      exact ⟨h1, c :: w, y', rfl, List.forall_mem_cons.mpr ⟨hblank, hw⟩, hy'⟩
    rw [Bool.not_eq_true] at hc
    cases turns with
    | zero => cases h
    | succ turns =>
      rw [List.cons_append, challengeLoop, skipWhitespace_head hc] at h
      simp only at h
      split at h
      · next h1 =>
        subst h1
        cases h
        exact ⟨rfl, [], y, rfl, nofun, (hy.plain_tail (by decide) (by decide)).2⟩
      split at h
      · next h2 =>
        subst h2
        obtain ⟨h1, w, y', rfl, hw, hy'⟩ := ih (hy.plain_tail (by decide) (by decide)).2 h
        exact ⟨h1, COMMA :: w, y', rfl, List.forall_mem_cons.mpr ⟨by decide, hw⟩, hy'⟩
      · by_cases hq : c = DQUOTE
        · subst hq
          exact absurd rfl (hy.plain_tail (by decide) (by decide)).1
        · have hread : ∀ r, readString (c :: r) = none := by
            intro r
            unfold readString
            rw [skipWhitespace_head hc]
            exact if_neg hq
          rw [hread] at h
          cases h

/-- in the rest of a string only objects without members are read -/
theorem items_inside {q b : Bytes} {items : List Challenge} (hq : Inside q)
    (h : Items (q ++ b) items) :
    items = List.replicate items.length .zero ∧ Blanks items.length q := by
  obtain @⟨y, a, z, hy, ha, hspace⟩ := hq
  generalize htail : DQUOTE :: COMMA :: DQUOTE :: a :: z = tail at h ⊢
  generalize hcur : y ++ tail ++ b = cur at h
  induction h generalizing y with
  | nil => subst htail; simp at hcur
  | close r =>
    cases y with
    | nil =>
      subst htail
      cases hcur
    | cons c y =>
      cases hcur
      exact ⟨rfl, .close _⟩
  | @pass c r items hc hitems ih =>
    cases y with
    | nil =>
      subst htail
      cases hcur
      exact absurd hc (by decide)
    | cons x y =>
      rw [List.cons_append, List.cons_append, List.cons.injEq] at hcur
      obtain ⟨rfl, rfl⟩ := hcur
      obtain ⟨h1, h2⟩ := ih (hy.plain_tail (isBlank_plain hc).1 (isBlank_plain hc).2).2 rfl
      exact ⟨h1, .pass hc h2⟩
  | @element challenge r r' items hj hs hitems ih =>
    cases y with
    | nil =>
      subst htail
      cases hcur
    | cons x y =>
      rw [List.cons_append, List.cons_append, List.cons.injEq] at hcur
      obtain ⟨rfl, rfl⟩ := hcur
      unfold jsonToChallenge at hj
      rw [consume_head (by decide)] at hj
      subst htail
      rw [List.append_assoc] at hj
      obtain ⟨rfl, w, y', rfl, hw, hy'⟩ :=
        challengeLoop_inside (z := z ++ b) (hy.plain_tail (by decide) (by decide)).2 ha hspace hj
      rw [skipJsonValue_brace, List.append_assoc, List.append_assoc, List.cons_append,
        skipNested_blanks hw] at hs
      cases hs
      obtain ⟨h1, h2⟩ := ih hy' (by simp)
      refine ⟨congrArg (Challenge.zero :: ·) h1, ?_⟩
      rw [List.cons_append, List.append_assoc]
      exact .object hw h2

/-! ## braces in strings -/

theorem Piece.brace {u : Bytes} (h : Piece u) (hu : CLOSE_BRACE ∈ u) : u = [CLOSE_BRACE] := by
  have hx : ∀ {c : UInt8}, isXDigit c = true → CLOSE_BRACE ≠ c := by
    rintro c hc rfl
    exact absurd hc (by decide)
  cases h with
  | plain c _ _ _ _ => rw [List.mem_singleton.mp hu]
  | escape e he =>
    simp only [List.mem_cons, List.not_mem_nil, or_false] at hu
    rcases hu with hu | rfl
    · exact absurd hu (by decide)
    · exact absurd he (by decide)
  | unicode a b c d ha hb hc hd =>
    simp only [List.mem_cons, List.not_mem_nil, or_false] at hu
    rcases hu with hu | hu | hu | hu | hu | hu
    · exact absurd hu (by decide)
    · exact absurd hu (by decide)
    · exact absurd hu (hx ha)
    · exact absurd hu (hx hb)
    · exact absurd hu (hx hc)
    · exact absurd hu (hx hd)
  | utf8 c cs hc hs =>
    obtain ⟨count, bits, minimum, v, -, h2, -⟩ := strUtf8_some hs
    rcases List.mem_cons.mp hu with rfl | hu
    · exact absurd hc (by decide)
    · exact absurd (continuation_range h2 _ hu) (by decide)

/-- a brace is no part of an escape -/
theorem Literal.behind_brace {f x y : Bytes} (h : Literal f) (hf : f = x ++ CLOSE_BRACE :: y) :
    Literal y := by
  induction h generalizing x with
  | nil => simp at hf
  | @cons u f hu hlit ih =>
    rcases List.append_eq_append_iff.mp hf with ⟨l, -, hl⟩ | ⟨l, hl, hf'⟩
    · exact ih hl
    · cases l with
      | nil => exact ih (x := []) hf'.symm
      | cons c l =>
        rw [List.cons_append, List.cons.injEq] at hf'
        obtain ⟨rfl, rfl⟩ := hf'
        have hone := Piece.brace hu (by rw [hl]; simp)
        rw [hone] at hl
        cases x with
        | nil =>
          cases hl
          exact hlit
        | cons d x => simp at hl

theorem brace_append {a b x q : Bytes} (h : a ++ b = x ++ CLOSE_BRACE :: q) :
    (∃ y, a = x ++ CLOSE_BRACE :: y ∧ q = y ++ b) ∨ ∃ x', b = x' ++ CLOSE_BRACE :: q := by
  rcases List.append_eq_append_iff.mp h with ⟨l, -, hl⟩ | ⟨l, hl, hq⟩
  · exact Or.inr ⟨l, hl⟩
  · cases l with
    | nil => exact Or.inr ⟨[], hq.symm⟩
    | cons c l =>
      rw [List.cons_append, List.cons.injEq] at hq
      obtain ⟨rfl, rfl⟩ := hq
      exact Or.inl ⟨l, hl, rfl⟩

/-- no braces -/
def Plain (p : Bytes) : Prop := ∀ c ∈ p, c ≠ OPEN_BRACE ∧ c ≠ CLOSE_BRACE

instance (p : Bytes) : Decidable (Plain p) :=
  inferInstanceAs (Decidable (∀ c ∈ p, c ≠ OPEN_BRACE ∧ c ≠ CLOSE_BRACE))

theorem Plain.append {p q : Bytes} (hp : Plain p) (hq : Plain q) : Plain (p ++ q) :=
  fun c hc => (List.mem_append.mp hc).elim (hp c) (hq c)

theorem Plain.digits (n : Nat) : Plain (Decimal.digits n) := by
  intro c hc
  have hd := Decimal.digits_isDigit n c hc
  constructor <;> (rintro rfl; exact absurd hd (by decide))

theorem brace_behind {p r x q : Bytes} (hp : Plain p) (h : p ++ r = x ++ CLOSE_BRACE :: q) :
    ∃ x', r = x' ++ CLOSE_BRACE :: q := by
  rcases brace_append h with ⟨y, rfl, -⟩ | h
  · exact absurd rfl (hp CLOSE_BRACE (by simp)).2
  · exact h

/-- the strings of a challenge stand in front of a comma and a key -/
theorem inner_shape (challenge : Challenge) : ∃ p0 p1 p2 p3 p4 : Bytes,
    inner challenge = p0 ++ (challenge.creatorId ++ DQUOTE :: COMMA :: DQUOTE :: 0x6e ::
      (p1 ++ (challenge.name ++
      DQUOTE :: COMMA :: DQUOTE :: 0x64 ::
      (p2 ++ (challenge.description ++ DQUOTE :: COMMA :: DQUOTE :: 0x66 :: (p3 ++
        (challenge.flag ++ DQUOTE :: COMMA :: DQUOTE :: 0x67 :: (p4 ++ [CLOSE_BRACE])))))))) ∧
    Plain p0 ∧ Plain p1 ∧ Plain p2 ∧ Plain p3 ∧ Plain p4 := by
  have hid : Plain (intText challenge.id) := by
    unfold intText
    split
    · exact Plain.append (by decide +kernel) (.digits _)
    · exact .digits _
  refine ⟨quote (ascii "id") ++ 0x3a ::
    (intText challenge.id ++ 0x2c :: (quote (ascii "creator_id") ++ [0x3a, 0x22])),
    ascii "ame\":\"", ascii "escription\":\"", ascii "lag\":\"",
    ascii "enre\":\"" ++ (ctfGenreToString challenge.genre ++ [0x22]), ?_,
    ?_, by decide +kernel, by decide +kernel,
    by decide +kernel, ?_⟩
  · have h0 : ascii "," = [0x2c] := by decide +kernel
    have h3 : quote (ascii "name") ++ [0x3a, 0x22] = 0x22 :: 0x6e ::
      ascii "ame\":\"" := by decide +kernel
    have h4 : quote (ascii "description") ++ [0x3a, 0x22] = 0x22 :: 0x64 ::
      ascii "escription\":\"" := by decide +kernel
    have h5 : quote (ascii "flag") ++ [0x3a, 0x22] = 0x22 :: 0x66 ::
      ascii "lag\":\"" := by decide +kernel
    have h6 : quote (ascii "genre") ++ [0x3a, 0x22] = 0x22 :: 0x67 ::
      ascii "enre\":\"" := by decide +kernel
    have hmember : ∀ k f r : Bytes, memberText (k, quote f) ++ r = (quote k ++ [0x3a, 0x22]) ++
      (f ++ 0x22 :: r) := by
      intro k f r
      simp [memberText, quote]
    unfold inner membersText challengeMembers
    simp only [List.map_cons, List.map_nil, List.intercalate_cons_cons, List.intercalate_singleton,
      List.append_assoc,
      h0, List.singleton_append, hmember, h3, h4, h5, h6]
    have hlast := congrArg (· ++ (ctfGenreToString challenge.genre ++ [0x22, 0x7d])) h6
    simp [memberText, DQUOTE, COMMA, CLOSE_BRACE]
    simpa [quote] using hlast
  · have h1 : Plain (quote (ascii "id") ++ [0x3a]) := by decide +kernel
    have h2 : Plain (0x2c :: (quote (ascii "creator_id") ++ [0x3a, 0x22])) := by decide +kernel
    have h := h1.append (hid.append h2)
    rwa [List.append_assoc] at h
  · have hgenre : Plain (ctfGenreToString challenge.genre ++ [0x22]) := by
      cases challenge.genre <;> decide +kernel
    exact Plain.append (by decide +kernel) hgenre

/-- behind a brace stands the end of the element, or the rest of a string -/
theorem inner_brace {challenge : Challenge} (hl : challenge.Literals) {x q : Bytes}
    (h : inner challenge = x ++ CLOSE_BRACE :: q) : q = [] ∨ (Inside q ∧ challenge ≠ .zero) := by
  obtain ⟨p0, p1, p2, p3, p4, hshape, h0, h1, h2, h3, h4⟩ := inner_shape challenge
  have hfield : ∀ {f : Bytes} {a : UInt8} {r x : Bytes}, Chars f → a ≠ COLON → a ≠ CLOSE_BRACE →
    isSpace a = false →
      f ++ DQUOTE :: COMMA :: DQUOTE :: a :: r = x ++ CLOSE_BRACE :: q →
      (Inside q ∧ f ≠ []) ∨ ∃ x', r = x' ++ CLOSE_BRACE :: q := by
    intro f a r x hf ha hbrace hspace h
    rcases brace_append h with ⟨y, hy, rfl⟩ | ⟨x', hx'⟩
    · refine Or.inl ⟨.mk a r (Literal.behind_brace ((chars_iff f).mp hf) hy) ha hspace, ?_⟩
      rw [hy]
      simp
    · have hsplit : [DQUOTE, COMMA, DQUOTE] ++ (a :: r) = x' ++ CLOSE_BRACE :: q := hx'
      obtain ⟨x1, hx1⟩ := brace_behind (by decide +kernel) hsplit
      cases x1 with
      | nil =>
        rw [List.nil_append, List.cons.injEq] at hx1
        exact absurd hx1.1 hbrace
      | cons d x1 =>
        rw [List.cons_append, List.cons.injEq] at hx1
        exact Or.inr ⟨x1, hx1.2⟩
  have hzero : ∀ {f : Challenge → Bytes}, f .zero = [] → f challenge ≠ [] → challenge ≠ .zero := by
    rintro f hf hne rfl
    exact hne hf
  rw [hshape] at h
  obtain ⟨x, h⟩ := brace_behind h0 h
  rcases hfield hl.creatorId (by decide) (by decide) (by decide) h with ⟨hin, hne⟩ | ⟨x, h⟩
  · exact Or.inr ⟨hin, hzero (f := Challenge.creatorId) rfl hne⟩
  obtain ⟨x, h⟩ := brace_behind h1 h
  rcases hfield hl.name (by decide) (by decide) (by decide) h with ⟨hin, hne⟩ | ⟨x, h⟩
  · exact Or.inr ⟨hin, hzero (f := Challenge.name) rfl hne⟩
  obtain ⟨x, h⟩ := brace_behind h2 h
  rcases hfield hl.description (by decide) (by decide) (by decide) h with ⟨hin, hne⟩ | ⟨x, h⟩
  · exact Or.inr ⟨hin, hzero (f := Challenge.description) rfl hne⟩
  obtain ⟨x, h⟩ := brace_behind h3 h
  rcases hfield hl.flag (by decide) (by decide) (by decide) h with ⟨hin, hne⟩ | ⟨x, h⟩
  · exact Or.inr ⟨hin, hzero (f := Challenge.flag) rfl hne⟩
  obtain ⟨x, h⟩ := brace_behind h4 h
  cases x with
  | nil =>
    cases h
    exact Or.inl rfl
  | cons c x => simp at h

/-! ## balanced strings -/

/-- the depth of braces behind a text; none below 0 -/
def braceLevel : Nat → Bytes → Option Nat
  | level, [] => some level
  | level, c :: s =>
    if c = OPEN_BRACE then braceLevel (level + 1) s
    else if c = CLOSE_BRACE then if level = 0 then none else braceLevel (level - 1) s
    else braceLevel level s

theorem braceLevel_append (level : Nat) (a b : Bytes) :
    braceLevel level (a ++ b) = (braceLevel level a).bind fun level => braceLevel level b := by
  induction a generalizing level with
  | nil => exact rfl
  | cons c a ih =>
    rw [List.cons_append, braceLevel, braceLevel]
    split
    · exact ih _
    split
    · split
      · exact rfl
      · exact ih _
    · exact ih _

theorem braceLevel_plain (level : Nat) {p : Bytes} (h : Plain p) :
    braceLevel level p = some level := by
  induction p with
  | nil => exact rfl
  | cons c p ih =>
    obtain ⟨⟨h1, h2⟩, hp⟩ := List.forall_mem_cons.mp h
    rw [braceLevel, if_neg h1, if_neg h2]
    exact ih hp

theorem skipNested_level (level : Nat) (s : Bytes) :
    skipNested OPEN_BRACE CLOSE_BRACE (level + 1) (s ++ [CLOSE_BRACE]) = some [] ↔
    braceLevel level s = some 0 := by
  induction s generalizing level with
  | nil =>
    rw [List.nil_append, skipNested, if_neg (by decide), if_pos rfl, braceLevel]
    cases level with
    | zero => exact ⟨fun _ => rfl, fun _ => rfl⟩
    | succ level => exact ⟨nofun, nofun⟩
  | cons c s ih =>
    rw [List.cons_append, skipNested, braceLevel]
    split
    · exact ih _
    split
    · cases level with
      | zero =>
        rw [skipNested_zero]
        refine ⟨fun h => ?_, nofun⟩
        simp at h
      | succ level => exact ih _
    · exact ih _

/-- the strings of a challenge, one after the other -/
def Challenge.strings (challenge : Challenge) : Bytes :=
  challenge.creatorId ++ challenge.name ++ challenge.description ++ challenge.flag

/-- every closing brace in the strings follows an opening one of its own, and every opening one is
closed -/
def Challenge.Balanced (challenge : Challenge) : Prop := braceLevel 0 challenge.strings = some 0

/-- the skip ends with an element exactly when the braces in its strings balance -/
theorem skipJsonValue_balanced (challenge : Challenge) :
    skipJsonValue (challengeToJson challenge) = some [] ↔ challenge.Balanced := by
  obtain ⟨p0, p1, p2, p3, p4, hshape, hp0, hp1, hp2, hp3, hp4⟩ := inner_shape challenge
  rw [challengeToJson_inner, skipJsonValue_brace, hshape]
  have hplain : ∀ {p : Bytes}, Plain p → ∀ level r, braceLevel level (p ++ r) =
    braceLevel level r := by
    intro p hp level r
    rw [braceLevel_append, braceLevel_plain level hp]
    exact rfl
  have hstep : ∀ {c : UInt8} {p : Bytes}, Plain [c] → Plain p → ∀ f r level,
      braceLevel level (f ++ DQUOTE :: COMMA :: DQUOTE :: c :: (p ++ r)) =
        (braceLevel level f).bind fun level => braceLevel level r := by
    intro c p hc hp f r level
    have h : Plain ([DQUOTE, COMMA, DQUOTE] ++ ([c] ++ p)) := Plain.append (by decide +kernel)
      (hc.append hp)
    rw [braceLevel_append]
    refine congrArg (Option.bind _) (funext fun level => ?_)
    have h1 := hplain h level r
    rwa [List.append_assoc, List.append_assoc] at h1
  have hassoc : ∀ f1 f2 f3 f4 :
    Bytes, p0 ++ (f1 ++ DQUOTE :: COMMA :: DQUOTE :: 0x6e :: (p1 ++ (f2 ++
      DQUOTE :: COMMA :: DQUOTE :: 0x64 :: (p2 ++ (f3 ++ DQUOTE :: COMMA :: DQUOTE :: 0x66 :: (p3 ++
        (f4 ++ DQUOTE :: COMMA :: DQUOTE :: 0x67 :: (p4 ++ [CLOSE_BRACE])))))))) =
      (p0 ++ (f1 ++ DQUOTE :: COMMA :: DQUOTE :: 0x6e :: (p1 ++ (f2 ++
      DQUOTE :: COMMA :: DQUOTE :: 0x64 :: (p2 ++ (f3 ++ DQUOTE :: COMMA :: DQUOTE :: 0x66 :: (p3 ++
        (f4 ++ DQUOTE :: COMMA :: DQUOTE :: 0x67 :: (p4 ++ []))))))))) ++ [CLOSE_BRACE] := by
    intro f1 f2 f3 f4
    simp
  have h1 := hstep (c := 0x6e) (by decide +kernel) hp1
  have h2 := hstep (c := 0x64) (by decide +kernel) hp2
  have h3 := hstep (c := 0x66) (by decide +kernel) hp3
  have h4 := hstep (c := 0x67) (by decide +kernel) hp4
  have hsides : braceLevel 0 challenge.strings =
    (braceLevel 0 challenge.creatorId).bind fun level =>
      (braceLevel level challenge.name).bind fun level =>
        (braceLevel level challenge.description).bind fun level =>
        braceLevel level challenge.flag := by
    unfold Challenge.strings
    rw [braceLevel_append, braceLevel_append, braceLevel_append, Option.bind_assoc,
      Option.bind_assoc]
  unfold Challenge.Balanced
  rw [hassoc, skipNested_level, hsides, hplain hp0]
  simp only [h1, h2, h3, h4, braceLevel, Option.bind_fun_some]

/-! ## the lists that are read back -/

/-- what a skip that begins in `challenges` leaves: the list behind some of them, or the rest of a
string of one -/
inductive Lands (challenges : List Challenge) : Bytes → Prop where
  | behind {passed rest : List Challenge} : passed ≠ [] → challenges = passed ++ rest →
      Lands challenges (restText rest)
  | inside {passed rest : List Challenge} {challenge : Challenge} {q : Bytes} :
      challenges = passed ++ challenge :: rest → challenge ≠ .zero → Inside q →
      Lands challenges (q ++ restText rest)

theorem Lands.cons {challenges : List Challenge} {q : Bytes} (h : Lands challenges q)
    (challenge : Challenge) :
    Lands (challenge :: challenges) q := by
  cases h with
  | behind hne hc => exact .behind (List.cons_ne_nil challenge _) (by rw [hc]; rfl)
  | @inside passed rest found _ hc hz hq =>
    have hcons : challenge :: challenges = (challenge :: passed) ++ found :: rest := by rw [hc]; rfl
    exact .inside hcons hz hq

/-- in an element the skip ends with it, or in a string -/
theorem inner_ends {challenge : Challenge} (hl : challenge.Literals) {depth : Nat} {q : Bytes}
    (h : skipNested OPEN_BRACE CLOSE_BRACE (depth + 1) (inner challenge) = some q) :
    q = [] ∨ (Inside q ∧ challenge ≠ .zero) := by
  obtain ⟨x, hx⟩ := skipNested_some h
  exact inner_brace hl hx

/-- the end of a skip over an element and the rest of its list -/
theorem inner_lands {challenge : Challenge} {challenges : List Challenge} (hl1 : challenge.Literals)
    (hl : ∀ challenge ∈ challenges, challenge.Literals) {depth : Nat} {q : Bytes}
    (h : skipNested OPEN_BRACE CLOSE_BRACE (depth + 1)
      (inner challenge ++ restText challenges) = some q) :
    Lands (challenge :: challenges) q := by
  induction challenges generalizing challenge depth with
  | nil =>
    rcases skipNested_append h with ⟨p, hp, rfl⟩ | ⟨-, deep, hrest⟩
    · rcases inner_ends hl1 hp with rfl | ⟨hin, hz⟩
      · exact .behind (List.cons_ne_nil challenge []) rfl
      · exact .inside (List.nil_append _).symm hz hin
    · cases hrest
  | cons next challenges ih =>
    rcases skipNested_append h with ⟨p, hp, rfl⟩ | ⟨-, deep, hrest⟩
    · rcases inner_ends hl1 hp with rfl | ⟨hin, hz⟩
      · exact .behind (List.cons_ne_nil challenge []) rfl
      · exact .inside (List.nil_append _).symm hz hin
    · obtain ⟨hl2, hl⟩ := List.forall_mem_cons.mp hl
      exact (ih hl2 hl hrest).cons challenge

theorem rest_lands {challenges : List Challenge} (hl : ∀ challenge ∈ challenges, challenge.Literals)
    {depth : Nat}
    {q : Bytes} (h : skipNested OPEN_BRACE CLOSE_BRACE (depth + 1) (restText challenges) = some q) :
    Lands challenges q := by
  cases challenges with
  | nil => cases h
  | cons challenge challenges =>
    obtain ⟨hl1, hl⟩ := List.forall_mem_cons.mp hl
    exact inner_lands hl1 hl h

/-- a reading has no more elements than the list, but for objects without members that it finds in
a string, behind what it read -/
inductive Shortened (challenges : List Challenge) : List Challenge → Prop where
  | plain {items : List Challenge} : items.length ≤ challenges.length → Shortened challenges items
  | blanks {front back items : List Challenge} {challenge : Challenge} (count : Nat) :
      challenges = front ++ challenge :: back → challenge ≠ .zero → items.length ≤
      front.length + 1 →
      Shortened challenges (items ++ List.replicate count .zero)

theorem Items.first {r : Bytes} {items : List Challenge}
    (h : Items (OPEN_BRACE :: r) items) :
    ∃ first q rest, items = first :: rest ∧ jsonToChallenge (OPEN_BRACE :: r) = some first ∧
      skipNested OPEN_BRACE CLOSE_BRACE 1 r = some q ∧ Items q rest := by
  cases h with
  | pass hb _ => exact absurd hb (by decide)
  | element hj hs hitems =>
    rw [skipJsonValue_brace] at hs
    exact ⟨_, _, _, rfl, hj, hs, hitems⟩

theorem Items.comma {r : Bytes} {items : List Challenge} (h : Items (COMMA :: r) items) :
    Items r items := by
  cases h with
  | pass _ h => exact h

theorem items_shortened {challenges items : List Challenge}
    (hl : ∀ challenge ∈ challenges, challenge.Literals)
    (h : Items (restText challenges) items) : Shortened challenges items := by
  cases challenges with
  | nil =>
    cases h with
    | close => exact .plain (Nat.le_refl _)
    | pass hb _ => exact absurd hb (by decide)
  | cons challenge challenges =>
    obtain ⟨hl1, hlrest⟩ := List.forall_mem_cons.mp hl
    obtain ⟨first, q, rest, rfl, -, hskip, hrest⟩ := h.comma.first
    cases inner_lands hl1 hlrest hskip with
    | @behind passed behind hne hsplit =>
      have hlen : behind.length < (challenge :: challenges).length := by
        rw [hsplit, List.length_append]
        exact Nat.lt_add_of_pos_left (List.length_pos_iff.mpr hne)
      cases items_shortened (fun c hc => hl c (by rw [hsplit]; exact List.mem_append_right _ hc))
        hrest with
      | plain hle => exact .plain (Nat.lt_of_le_of_lt hle hlen)
      | @blanks front back items found count heq hz hle =>
        have hall : challenge :: challenges = (passed ++ front) ++ found :: back := by
          rw [hsplit, heq, List.append_assoc]
        have hlong : (first :: items).length ≤ (passed ++ front).length + 1 := by
          have := List.length_pos_iff.mpr hne
          rw [List.length_append, List.length_cons]
          omega
        exact .blanks count hall hz hlong
    | @inside passed behind found q hsplit hz hq =>
      obtain ⟨hblanks, -⟩ := items_inside hq hrest
      rw [hblanks]
      have hlong : [first].length ≤ passed.length + 1 := Nat.le_add_left _ _
      exact .blanks _ hsplit hz hlong
termination_by challenges.length

/-- the braces balance in the strings of each challenge; or they balance up to one where the count
ends early, all challenges behind it are zero, and the rest of its string is written so that it
reads as that many objects without members -/
def Survives : List Challenge → Prop
  | [] => True
  | challenge :: challenges =>
    (challenge.Balanced ∧ Survives challenges) ∨
      ∃ q, skipJsonValue (challengeToJson challenge) = some q ∧ Blanks challenges.length q ∧
        ∀ other ∈ challenges, other = .zero

theorem not_shortened {passed behind : List Challenge} (hne : passed ≠ [])
    (h : Shortened behind (passed ++ behind)) : False := by
  have hpos := List.length_pos_iff.mpr hne
  generalize hitems : passed ++ behind = items at h
  cases h with
  | plain hle =>
    rw [← hitems, List.length_append] at hle
    omega
  | @blanks front back real challenge count heq hz hle =>
    -- the element that the blanks came from stands among the blanks
    have hget := congrArg (·[passed.length + front.length]?) hitems
    have hleft : (passed ++ behind)[passed.length + front.length]? = some challenge := by
      rw [List.getElem?_append_right (Nat.le_add_right _ _), Nat.add_sub_cancel_left, heq,
        List.getElem?_append_right (Nat.le_refl _), Nat.sub_self]
      exact rfl
    rw [hleft, List.getElem?_append_right (by omega)] at hget
    have hmem := List.mem_of_getElem? hget.symm
    exact hz (List.eq_of_mem_replicate hmem)

theorem items_survives {challenges : List Challenge}
    (hl : ∀ challenge ∈ challenges, challenge.Literals ∧ challenge.id ≤ INT_MAX) :
    Items (restText challenges) challenges ↔ Survives challenges := by
  induction challenges with
  | nil => exact ⟨fun _ => trivial, fun _ => .close _⟩
  | cons challenge challenges ih =>
    obtain ⟨⟨hl1, hmax⟩, hlrest⟩ := List.forall_mem_cons.mp hl
    have hread : jsonToChallenge (OPEN_BRACE :: (inner challenge ++ restText challenges)) =
      some challenge := by
      rw [← List.cons_append, ← challengeToJson_inner]
      exact jsonToChallenge_text hl1 hmax _
    unfold Survives
    rw [← skipJsonValue_balanced, challengeToJson_inner, skipJsonValue_brace]
    constructor
    · intro h
      obtain ⟨first, q, rest, heq, -, hskip, hrest⟩ := h.comma.first
      obtain ⟨rfl, rfl⟩ := List.cons.inj heq
      rcases skipNested_append hskip with ⟨p, hp, rfl⟩ | ⟨-, deep, hdeep⟩
      · rcases inner_ends hl1 hp with rfl | ⟨hin, -⟩
        · exact Or.inl ⟨hp, (ih hlrest).mp hrest⟩
        · obtain ⟨hzero, hblanks⟩ := items_inside hin hrest
          refine Or.inr ⟨p, hp, hblanks, fun other hother => ?_⟩
          rw [hzero] at hother
          exact List.eq_of_mem_replicate hother
      · -- the skip went past the end of the element, and elements are missing
        exfalso
        have hlit := fun c hc => (hlrest c hc).1
        generalize hitems : challenges = items at hrest
        cases rest_lands hlit hdeep with
        | behind hne hsplit =>
          rw [← hitems, hsplit] at hrest
          refine not_shortened hne (items_shortened (fun c hc => hlit c ?_) hrest)
          rw [hsplit]
          exact List.mem_append_right _ hc
        | inside hsplit hz hq =>
          obtain ⟨hzero, -⟩ := items_inside hq hrest
          refine hz (List.eq_of_mem_replicate (n := items.length) (a := Challenge.zero) ?_)
          rw [← hzero, ← hitems, hsplit]
          simp
    · rintro (⟨hskip, hrest⟩ | ⟨q, hskip, hblanks, hzero⟩)
      · refine .pass (by decide) (.element hread ?_ ((ih hlrest).mpr hrest))
        rw [skipJsonValue_brace, skipNested_ends hskip]
        exact rfl
      · have hskip' := skipNested_ends hskip (restText challenges)
        rw [← skipJsonValue_brace] at hskip'
        refine .pass (by decide) (.element hread hskip' ?_)
        · have h := (hblanks.append (restText challenges)).items
          rwa [← List.eq_replicate_of_mem hzero] at h

/-- the list is written as a text, and the text is read as the list -/
def ReadsBack (malloc : Malloc) (challenges : List Challenge) : Prop :=
  ∃ s text, challengesToJsonImplBuffer malloc challenges false true = some s ∧ s.Holds text ∧
    jsonToChallenges enoughMemory text = some challenges

theorem Challenge.Literals.printable {challenge : Challenge} (h : challenge.Literals)
    (hlength : (challengeToJsonImpl true challenge).length ≤ INT_MAX) :
    challenge.Printable true where
  id := by
    have := h.id
    unfold INT_MIN
    omega
  creatorId := chars_noNul h.creatorId
  name := chars_noNul h.name
  description := chars_noNul h.description
  flag := chars_noNul h.flag
  length := hlength

/-- **A non-empty list of challenges whose strings are literals is read back from its text exactly
when its texts fit, and the list survives the count of braces.** -/
theorem challengesToJson_read_back_iff {challenges : List Challenge} (hne : challenges ≠ [])
    (hl : ∀ challenge ∈ challenges, challenge.Literals ∧ challenge.id ≤ INT_MAX) (malloc : Malloc)
    (hm : ∀ size, ∃ buffer, malloc.run size = some buffer) :
    ReadsBack malloc challenges ↔ Fits true challenges ∧ Survives challenges := by
  have hread : jsonToChallenges enoughMemory (challengesToJson challenges) = some challenges ↔
    Survives challenges := by
    rw [← items_survives hl]
    cases challenges with
    | nil => exact absurd rfl hne
    | cons challenge challenges =>
      unfold jsonToChallenges
      rw [challengesToJson_text, consume_head (by decide)]
      simp only [enoughMemory, if_true]
      rw [listLoop_iff (Nat.le_succ _)]
      constructor
      · rintro ⟨items, rfl, h⟩
        exact .pass (by decide) h
      · intro h
        exact ⟨_, rfl, h.comma⟩
  have hprint (hfits : Fits true challenges) : ∀ challenge ∈ challenges,
    challenge.Printable true := fun c hc =>
    (hl c hc).1.printable (hfits.length c hc)
  constructor
  · rintro ⟨s, text, hs, hholds, h⟩
    have hid : ∀ challenge ∈ challenges, challenge.id ≠ INT_MIN := by
      intro challenge hc
      have := (hl challenge hc).1.id
      unfold INT_MIN
      omega
    have hfits := Fits.of_holds hne hid hs hholds
    obtain ⟨s', hs', hholds'⟩ := challengesToJsonImplBuffer_holds hne (hprint hfits) hm hfits.total
    rw [hs] at hs'
    obtain rfl := Option.some.inj hs'
    have htext : text = challengesToJson challenges := by
      have h1 := hholds.ptr.symm.trans hholds'.ptr
      exact List.append_cancel_right (Option.some.inj h1)
    rw [htext] at h
    exact ⟨hfits, hread.mp h⟩
  · rintro ⟨hfits, h⟩
    obtain ⟨s, hs, hholds⟩ := challengesToJsonImplBuffer_holds hne (hprint hfits) hm hfits.total
    exact ⟨s, _, hs, hholds, hread.mpr h⟩

/-- a closing brace in a string of a list of one -/
theorem challengesToJson_lost : ¬ ∀ (malloc : Malloc) (challenges : List Challenge),
    challenges ≠ [] →
    (∀ challenge ∈ challenges, challenge.Literals ∧ challenge.id ≤ INT_MAX) →
      (∀ size, ∃ buffer, malloc.run size = some buffer) → ReadsBack malloc challenges := by
  intro h
  have hchars : ∀ {f : Bytes}, (∀ c ∈ f, ¬ c < 0x20 ∧ ¬ 0x80 ≤ c ∧ c ≠ DQUOTE ∧ c ≠ BACKSLASH) →
    Chars f := chars_plain
  obtain ⟨s, text, hs, hholds, hread⟩ :=
    h .zeroed [⟨1, ascii "u", ascii "\x7d", ascii "d", ascii "f", .web⟩]
    (List.cons_ne_nil _ _)
    (List.forall_mem_singleton.mpr
      ⟨⟨by decide, hchars (by decide +kernel), hchars (by decide +kernel),
      hchars (by decide +kernel), hchars (by decide +kernel)⟩, by decide⟩) (fun size => ⟨_, rfl⟩)
  have hwritten : challengesToJsonImplBuffer .zeroed
    [⟨1, ascii "u", ascii "\x7d", ascii "d", ascii "f", .web⟩] false true =
      some ⟨some (ascii "[\x7b\"id\":1,\"creator_id\":\"u\",\"name\":\"\x7d\",\"description\":\"d\"," ++
        ascii "\"flag\":\"f\",\"genre\":\"web\"\x7d]" ++ [0]),
        81⟩ := by decide +kernel
  rw [hwritten] at hs
  obtain rfl := Option.some.inj hs
  have htext := List.append_cancel_right (Option.some.inj hholds.ptr)
  rw [← htext] at hread
  revert hread
  decide +kernel

/-- braces in a name, a character of two bytes and an escape in a description -/
def readBackChallenges : List Challenge :=
  [⟨1, ascii "u", ascii "\x7b\x7d", [0xc3, 0xa9] ++ ascii "\\n", ascii "f", .web⟩,
    ⟨2, ascii "u", ascii "n", ascii "\\u00e9", ascii "f\\\"", .pwn⟩]

theorem readBackChallenges_literals :
    ∀ challenge ∈ readBackChallenges, challenge.Literals ∧ challenge.id ≤ INT_MAX := by
  have hchars : ∀ {f : Bytes}, readString (quote f) = some (f, []) → Chars f :=
    fun h => (readString_split h).choose_spec.2.1
  refine List.forall_mem_cons.mpr
    ⟨⟨⟨by decide, hchars ?_, hchars ?_, hchars ?_, hchars ?_⟩, by decide⟩,
    List.forall_mem_singleton.mpr
    ⟨⟨by decide, hchars ?_, hchars ?_, hchars ?_, hchars ?_⟩, by decide⟩⟩
  all_goals decide +kernel

theorem challengesToJson_read_back_sample :
    ReadsBack .zeroed readBackChallenges ↔ Fits true readBackChallenges ∧
    Survives readBackChallenges :=
  challengesToJson_read_back_iff (List.cons_ne_nil _ _) readBackChallenges_literals .zeroed
    (fun size => ⟨_, rfl⟩)

end App

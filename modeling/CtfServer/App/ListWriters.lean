import CtfServer.App.Writers

/-!
# The writers of lists in two passes

`answers_to_json` (json_answer.c) and `public_users_to_json` (json_user.c), down to the buffer: each
element is formatted twice, once for its length and once into the buffer.  A function gives `none`
when it stores outside of the buffer, or reads past the end of a string.

* `measureLoop`, `fillLoop`     the two passes;
* `writeList`                   the writer, which the two functions instantiate;
* `fillLoop_fills`              the second pass fills what the first one has counted;
* `writeList_cases`             **a list is written whole, or it is too long, or memory is short**.
-/

set_option linter.unusedVariables false
set_option linter.unusedSimpArgs false

namespace App

open Json (INT_MAX)
open Buffer (Malloc Libc storeAt storeAt_exact snprintf snprintf_append)

/-! ## the formats -/

/-- `format_answer`; `none` when a string bounds nothing -/
def answerFormat (publicView : Bool) (answer : Answer) : Option Bytes := do
  let username ← precise answer.username
  let createdAt ← precise answer.createdAt
  if publicView then
    some (ascii "\x7b\"challenge_id\":" ++ intText answer.challengeId ++ ascii ",\"username\":\""
      ++ username ++
      ascii "\",\"answered_at\":\"" ++ createdAt ++ ascii "\"\x7d")
  else do
    let text ← precise answer.answer
    some (ascii "\x7b\"challenge_id\":" ++ intText answer.challengeId ++
      ascii ",\"answer\":\"" ++ text ++
      ascii "\",\"correct\":" ++ (if answer.isCorrected then ascii "true" else ascii "false") ++
      ascii ",\"username\":\"" ++ username ++ ascii "\",\"answered_at\":\"" ++ createdAt ++
      ascii "\"\x7d")

/-- `format_public_user`; the id ends at its NUL -/
def publicUserFormat (user : PublicUser) : Option Bytes := do
  let username ← precise user.username
  some (ascii "\x7b\"id\":\"" ++ user.id.takeWhile (· != 0) ++ ascii "\",\"username\":\""
    ++ username ++
    ascii "\",\"score\":" ++ intText user.score ++ ascii "\x7d")

/-! ## the two passes -/

/-- the first pass: `size` with the lengths of the elements and their commas; the inner `none` is an
early return -/
def measureLoop (full : Nat → Nat → Nat → Bool) :
    List (Option Bytes) → Nat → Nat → Option (Option Nat)
  | [], _, size => some (some size)
  | format :: formats, i, size => do
    let text ← format
    let comma := if i = 0 then 0 else 1
    if INT_MAX < text.length ∨ full size text.length comma then some none
    else measureLoop full formats (i + 1) (size + (text.length + comma))

/-- `(size_t)length` -/
def sizeOfInt (n : Int) : Nat := (n % 2^64).toNat

/-- `if (i) buffer[offset++] = ',';` -/
def storeComma (i : Nat) (buffer : Bytes) (offset : Nat) : Option Bytes :=
  if i = 0 then some buffer else storeAt buffer offset (ascii ",")

/-- the second pass; with `rechecks`, an element that does not fit is a failure -/
def fillLoop (libc : Libc) (rechecks : Bool) (size : Nat) :
    List (Option Bytes) → Nat → Bytes → Nat → Option (Option (Bytes × Nat))
  | [], _, buffer, offset => some (some (buffer, offset))
  | format :: formats, i, buffer, offset => do
    let buffer ← storeComma i buffer offset
    let offset := if i = 0 then offset else offset + 1
    let text ← format
    if size < offset then none
    else do
      let (length, buffer) ← snprintf libc INT_MAX buffer offset (size - offset) text
      if rechecks = true ∧ (length < 0 ∨ (size - offset : Nat) ≤ length) then some none
      else fillLoop libc rechecks size formats (i + 1) buffer ((offset + sizeOfInt length) % 2^64)

/-- the frame of the two writers: they differ in the guard of the size, and in the second check -/
def writeList (full : Nat → Nat → Nat → Bool) (rechecks : Bool) (malloc : Malloc) (libc : Libc)
    (formats : List (Option Bytes)) : Option StringT := do
  match ← measureLoop full formats 0 3 with
  | none => some .null
  | some size =>
    match malloc.run size with
    | none => some .null
    | some buffer =>
      let buffer ← storeAt buffer 0 (ascii "[")
      match ← fillLoop libc rechecks size formats 0 buffer 1 with
      | none => some .null
      | some (buffer, offset) =>
        let buffer ← storeAt buffer offset (ascii "]")
        let buffer ← storeAt buffer (offset + 1) [0]
        some ⟨some buffer, offset + 1⟩

/-- `answers_to_json` -/
def answersToJsonBuffer (malloc : Malloc) (libc : Libc) (answers : List Answer)
    (publicView : Bool) : Option StringT :=
  writeList (fun size length comma => decide (SIZE_MAX - length - comma < size)) false malloc libc
    (answers.map (answerFormat publicView))

/-- `public_users_to_json` -/
def publicUsersToJsonBuffer (malloc : Malloc) (libc : Libc) (users : List PublicUser) :
    Option StringT :=
  writeList (fun size length comma => decide (SIZE_MAX - size < length + comma)) true malloc libc
    (users.map publicUserFormat)

/-! ## what the passes do -/

/-- the elements from the `i`-th on, with their commas -/
def elementsText (i : Nat) : List Bytes → Bytes
  | [] => []
  | text :: texts => (if i = 0 then [] else ascii ",") ++ text ++ elementsText (i + 1) texts

theorem elementsText_later (texts : List Bytes) (i : Nat) :
    elementsText (i + 1) texts = texts.flatMap fun text => ascii "," ++ text := by
  induction texts generalizing i with
  | nil => rfl
  | cons text texts ih =>
    rw [elementsText, ih, if_neg (Nat.succ_ne_zero i), List.flatMap_cons]

theorem elementsText_first (texts : List Bytes) :
    elementsText 0 texts = (ascii ",").intercalate texts := by
  cases texts with
  | nil => rfl
  | cons text texts =>
    rw [elementsText, elementsText_later, if_pos rfl, List.nil_append]
    induction texts generalizing text with
    | nil => rw [List.intercalate_singleton, List.flatMap_nil, List.append_nil]
    | cons next texts ih =>
      rw [List.intercalate_cons_of_ne_nil (List.cons_ne_nil _ _), ← ih, List.flatMap_cons]
      simp only [List.append_assoc]

/-- the guard of a writer refuses exactly a size that would wrap -/
def Guards (full : Nat → Nat → Nat → Bool) : Prop :=
  ∀ size length comma, size ≤ SIZE_MAX → length ≤ INT_MAX → comma ≤ 1 →
    (full size length comma = true ↔ SIZE_MAX < size + (length + comma))

/-- texts that `snprintf` can write whole -/
def Written (texts : List Bytes) : Prop :=
  ∀ text ∈ texts, (0 : UInt8) ∉ text ∧ text.length ≤ INT_MAX

section
variable {full : Nat → Nat → Nat → Bool} {texts : List Bytes}

/-- **the first pass counts what the second one writes** -/
theorem measureLoop_eq (hfull : Guards full) (h : Written texts) (i size : Nat)
    (hsize : size ≤ SIZE_MAX) :
    (measureLoop full (texts.map some) i size = some none ∧ SIZE_MAX < size +
      (elementsText i texts).length) ∨
      measureLoop full (texts.map some) i size =
      some (some (size + (elementsText i texts).length)) ∧
        size + (elementsText i texts).length ≤ SIZE_MAX := by
  induction texts generalizing i size with
  | nil => exact .inr ⟨rfl, hsize⟩
  | cons text texts ih =>
    obtain ⟨⟨-, hmax⟩, htail⟩ := List.forall_mem_cons.mp h
    have hcomma : (if i = 0 then ([] : Bytes) else ascii ",").length = if i = 0 then 0 else
      1 := by split <;> rfl
    have hone : (if i = 0 then 0 else 1) ≤ 1 := by split <;> omega
    have hlength : (elementsText i (text :: texts)).length =
        text.length + (if i = 0 then 0 else 1) + (elementsText (i + 1) texts).length := by
      rw [elementsText, List.length_append, List.length_append, hcomma]
      omega
    have hguard := hfull size text.length _ hsize hmax hone
    rw [List.map_cons, measureLoop, hlength]
    simp only [Option.bind_eq_bind, Option.bind_some]
    generalize (if i = 0 then 0 else 1) = comma at hguard ⊢
    by_cases hbig : SIZE_MAX < size + (text.length + comma)
    · rw [if_pos (.inr (hguard.mpr hbig))]
      exact .inl ⟨rfl, by omega⟩
    · rw [if_neg (not_or.mpr ⟨Nat.not_lt.mpr hmax, fun hf => hbig (hguard.mp hf)⟩)]
      have hrest := ih htail (i + 1) _ (Nat.not_lt.mp hbig)
      rwa [Nat.add_assoc size] at hrest

/-- **the second pass fills the buffer from the offset on** -/
theorem fillLoop_fills (libc : Libc) (rechecks : Bool) (h : Written texts) (i : Nat)
    (out rest : Bytes) {size : Nat}
    (hsize : size = out.length + rest.length) (hmax : size ≤ SIZE_MAX)
    (hroom : (elementsText i texts).length + 1 ≤ rest.length) :
    ∃ rest', rest'.length + (elementsText i texts).length = rest.length ∧
      fillLoop libc rechecks size (texts.map some) i (out ++ rest) out.length =
        some (some (out ++ elementsText i texts ++ rest',
          (out ++ elementsText i texts).length)) := by
  induction texts generalizing i out rest with
  | nil => exact ⟨rest, rfl, by rw [elementsText, List.append_nil]; rfl⟩
  | cons text texts ih =>
    obtain ⟨⟨hnul, hlen⟩, htail⟩ := List.forall_mem_cons.mp h
    -- the comma, if there is one
    obtain ⟨comma, hcomma⟩ : ∃ comma, comma = if i = 0 then ([] : Bytes) else ascii "," := ⟨_, rfl⟩
    have hstore : storeComma i (out ++ rest) out.length =
      some (out ++ comma ++ rest.drop comma.length) := by
      unfold storeComma
      rw [elementsText, ← hcomma, List.length_append, List.length_append] at hroom
      split at hcomma
      · next hi => rw [if_pos hi, hcomma, List.append_nil, List.length_nil, List.drop_zero]
      · next hi => rw [if_neg hi, storeAt_exact (by rw [← hcomma]; omega), ← hcomma]
    have hoffset : (if i = 0 then out.length else out.length + 1) = (out ++ comma).length := by
      rw [List.length_append]
      split at hcomma
      · next hi => rw [if_pos hi, hcomma, List.length_nil, Nat.add_zero]
      · next hi =>
        rw [if_neg hi, hcomma]
        exact rfl
    have htext : elementsText i (text :: texts) = comma ++ text ++ elementsText (i + 1) texts := by
      rw [elementsText, ← hcomma]
    rw [htext, List.length_append, List.length_append] at hroom
    have hrest : (rest.drop comma.length).length + comma.length = rest.length := by
      rw [List.length_drop]
      omega
    have hout : (out ++ comma).length = out.length + comma.length := List.length_append
    have hleft : size - (out ++ comma).length = (rest.drop comma.length).length := by omega
    have hprint := snprintf_append libc (out ++ comma)
      (show text.length + 1 ≤ (rest.drop comma.length).length by omega) hlen
    have hnext : ((out ++ comma).length + sizeOfInt (text.length : Int)) % 2^64 =
      (out ++ comma ++ text).length := by
      have hlength : (out ++ comma ++ text).length = (out ++ comma).length + text.length :=
        List.length_append
      have hsmall : (out ++ comma).length + text.length < 2^64 := by
        unfold SIZE_MAX at hmax
        omega
      have hsize : sizeOfInt (text.length : Int) = text.length := by
        unfold sizeOfInt
        omega
      rw [hsize, hlength, Nat.mod_eq_of_lt hsmall]
    have hfits : ¬ (rechecks = true ∧
      ((text.length : Int) < 0 ∨ (size - (out ++ comma).length : Nat) ≤ (text.length : Int))) := by
      rintro ⟨-, hlt | hle⟩ <;> omega
    obtain ⟨rest', h1, h2⟩ := ih htail (i + 1) (out ++ comma ++ text)
      (0 :: (rest.drop comma.length).drop (text.length + 1))
      (by simp only [List.length_append, List.length_cons, List.length_drop] at *; omega)
      (by simp only [List.length_cons, List.length_drop] at *; omega)
    refine ⟨rest', ?_, ?_⟩
    · rw [htext, List.length_append, List.length_append]
      simp only [List.length_cons, List.length_drop] at h1 hrest
      omega
    · rw [List.map_cons, fillLoop]
      simp only [Option.bind_eq_bind, hstore, hoffset, Option.bind_some]
      rw [if_neg (by omega), hleft, hprint]
      simp only [Option.bind_some]
      rw [← hleft, if_neg hfits, hnext, h2, htext]
      simp only [List.append_assoc]

/-- the buffer is as long as the text with its NUL -/
theorem arrayText_size (texts : List Bytes) :
    3 + (elementsText 0 texts).length = (arrayText texts).length + 1 := by
  have hopen : (ascii "[").length = 1 := by decide
  have hclose : (ascii "]").length = 1 := by decide
  rw [elementsText_first, arrayText, List.length_append, List.length_append, hopen, hclose]
  omega

/-- **A list is written whole, with its NUL, in a buffer of just its size, or there is no such
buffer.** -/
theorem writeList_cases (hfull : Guards full) (rechecks : Bool) (h : Written texts)
    (malloc : Malloc) (libc : Libc) :
    (writeList full rechecks malloc libc (texts.map some) = some .null ∧
      (SIZE_MAX < (arrayText texts).length + 1 ∨ malloc.run ((arrayText texts).length + 1) = none))
        ∨
      ∃ s, writeList full rechecks malloc libc (texts.map some) = some s ∧
        s.Holds (arrayText texts) := by
  have hsize := arrayText_size texts
  unfold writeList
  simp only [Option.bind_eq_bind]
  rcases measureLoop_eq hfull h 0 3 (by decide) with ⟨hlong, hmax⟩ | ⟨hshort, hmax⟩
  · rw [hlong]
    exact .inl ⟨rfl, .inl (by omega)⟩
  · rw [hsize] at hshort hmax
    rw [hshort, Option.bind_some]
    dsimp only
    cases hm : malloc.run ((arrayText texts).length + 1) with
    | none => exact .inl ⟨rfl, .inr rfl⟩
    | some buffer =>
      have hbuffer : buffer.length = (arrayText texts).length + 1 := malloc.sized _ _ hm
      have hopen : storeAt buffer 0 (ascii "[") = some (ascii "[" ++ buffer.drop 1) := by
        have hpos : (ascii "[").length ≤ buffer.length := by
          show 1 ≤ buffer.length
          omega
        have hstore : storeAt ([] ++ buffer) 0 (ascii "[") =
          some ([] ++ ascii "[" ++ buffer.drop 1) := storeAt_exact hpos
        exact hstore
      have hrest : (buffer.drop 1).length = (elementsText 0 texts).length + 2 := by
        rw [List.length_drop]
        omega
      have htotal : (arrayText texts).length + 1 = (ascii "[").length + (buffer.drop 1).length := by
        rw [hrest, ← hsize]
        show _ = 1 + _
        omega
      obtain ⟨rest, h1, h2⟩ := fillLoop_fills libc rechecks h 0 (ascii "[") (buffer.drop 1) htotal
        hmax (by omega)
      -- the bracket and the NUL take what is left
      obtain ⟨a, b, rfl⟩ : ∃ a b, rest = [a, b] := List.length_eq_two.mp (by omega)
      have hfill : fillLoop libc rechecks ((arrayText texts).length + 1) (texts.map some) 0
        (ascii "[" ++ buffer.drop 1) 1 =
          some (some (ascii "[" ++ elementsText 0 texts ++ [a, b],
            (ascii "[" ++ elementsText 0 texts).length)) := h2
      have hclose : storeAt (ascii "[" ++ elementsText 0 texts ++ [a, b])
        (ascii "[" ++ elementsText 0 texts).length
          (ascii "]") = some (ascii "[" ++ elementsText 0 texts ++ ascii "]" ++ [b]) :=
        storeAt_exact (by show 1 ≤ 2; decide)
      have hnul : storeAt (arrayText texts ++ [b]) (arrayText texts).length [0] =
        some (arrayText texts ++ [0] ++ []) :=
        storeAt_exact (Nat.le_refl 1)
      have htext : ascii "[" ++ elementsText 0 texts ++ ascii "]" = arrayText texts := by
        rw [elementsText_first]
        rfl
      have hoffset : (ascii "[" ++ elementsText 0 texts).length + 1 = (arrayText texts).length := by
        simp only [← htext, List.length_append]
        rfl
      refine .inr ⟨⟨some (arrayText texts ++ [0]), (arrayText texts).length⟩, ?_, rfl, rfl,
        arrayText_noNul fun text htext => (h text htext).1⟩
      simp only [hopen, hfill, hclose, Option.bind_some, hoffset, htext, hnul, List.append_nil]

end

/-! ## the two writers -/

theorem guards_answers : Guards fun size length comma => decide
    (SIZE_MAX - length - comma < size) := by
  intro size length comma hsize hlength hcomma
  have hmax : INT_MAX < SIZE_MAX := by decide
  rw [decide_eq_true_eq]
  omega

theorem guards_users : Guards fun size length comma => decide
    (SIZE_MAX - size < length + comma) := by
  intro size length comma hsize hlength hcomma
  rw [decide_eq_true_eq]
  omega

end App

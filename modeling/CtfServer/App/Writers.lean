import CtfServer.App.Output
import CtfServer.Lib.Buffer
import CtfServer.Json.Fields

/-!
# The buffers of the writers

`challenge_to_json_impl` and `challenges_to_json_impl` (json.c), down to the buffer: its size is
counted by hand, `snprintf` cuts off what does not fit, and a byte is stored where the offset says.
A function gives `none` when it stores outside of a buffer.

* `StringT.Holds text`      the string is `text`, ends there in a NUL, and declares its length;
* `challengeToJsonImplBuffer_holds`    the writer of a challenge writes `challengeToJsonImpl`;
* `challengesToJsonImplBuffer_holds`   the writer of a list writes the array;
* `Fits.of_holds`                      a list that is written whole is one whose texts fit;
* `challengesToJson_written_iff`       **lists are written whole inside of their buffers exactly
                                       when they are not empty and no id is `INT_MIN`**.
-/

set_option linter.unusedVariables false
set_option linter.unusedSimpArgs false

namespace App

open Json (ctfGenreToString INT_MAX)
open Buffer (Malloc storeAt snprintfAt storeAt_exact snprintfAt_append snprintfAt_whole
  cString cString_eq)

/-- `string_t` -/
structure StringT where
  ptr : Option Bytes
  len : Nat
  deriving DecidableEq, Repr

def INT_MIN : Int := -2^31

def SIZE_MAX : Nat := 2^64 - 1

def StringT.null : StringT := ⟨none, 0⟩

/-- the string up to its NUL is `text`, and `len` says how long it is -/
structure StringT.Holds (s : StringT) (text : Bytes) : Prop where
  ptr : s.ptr = some (text ++ [0])
  len : s.len = text.length
  noNul : (0 : UInt8) ∉ text

/-! ## `int_string_length` and formats -/

/-- `while (value > 0) { length++; value /= 10; }` -/
def digitLoop (value : Nat) : Nat :=
  if h : 0 < value then 1 + digitLoop (value / 10) else 0
termination_by value
decreasing_by omega

def intStringLength (value : Int) : Nat :=
  if value = 0 then 1
  else if value < 0 then 1 + digitLoop value.natAbs
  else digitLoop value.natAbs

/-- `%.*s` with `(int)s.len`: up to that many bytes, up to a NUL; a length that is negative as an
`int` bounds nothing -/
def precise (s : Bytes) : Option Bytes :=
  if s.length % 2^32 < 2^31 then some ((s.take (s.length % 2^32)).takeWhile (· != 0)) else none

/-! ## one challenge -/

/-- `buffer_suze` -/
def bufferSize (includeFlag : Bool) (challenge : Challenge) : Nat :=
  1 + 5 + intStringLength challenge.id + 1 + 13 + challenge.creatorId.length + 3 + 7 +
    challenge.name.length + 3 +
    14 + challenge.description.length + 3 +
      (if includeFlag then 7 + challenge.flag.length + 3 else 0) +
      8 + (ctfGenreToString challenge.genre).length + 4

/-- what the format gives -/
def challengeFormat (includeFlag : Bool) (challenge : Challenge) : Option Bytes := do
  let creatorId ← precise challenge.creatorId
  let name ← precise challenge.name
  let description ← precise challenge.description
  let flag ← if includeFlag then precise challenge.flag else some []
  let genre ← precise (ctfGenreToString challenge.genre)
  some (ascii "\x7b\"id\":" ++ intText challenge.id ++ ascii ",\"creator_id\":\"" ++ creatorId ++
    ascii "\",\"name\":\"" ++ name ++ ascii "\",\"description\":\"" ++ description ++
    (if includeFlag then ascii "\",\"flag\":\"" ++ flag else []) ++
    ascii "\",\"genre\":\"" ++ genre ++ ascii "\"\x7d")

/-- `challenge_to_json_impl`; `-value` in `int_string_length` overflows for `INT_MIN` -/
def challengeToJsonImplBuffer (malloc : Malloc) (challenge : Challenge)
    (onlySize includeFlag : Bool) : Option StringT :=
  if challenge.id = INT_MIN then none
  else if onlySize then some ⟨none, bufferSize includeFlag challenge - 1⟩
  else
    match malloc.run (bufferSize includeFlag challenge) with
    | none => some .null
    | some buffer => do
      let text ← challengeFormat includeFlag challenge
      let buffer ← snprintfAt INT_MAX buffer 0 (bufferSize includeFlag challenge) text
      some ⟨some buffer, bufferSize includeFlag challenge - 1⟩

/-- the challenges that a format writes whole -/
structure Challenge.Printable (includeFlag : Bool) (challenge : Challenge) : Prop where
  id : challenge.id ≠ INT_MIN
  creatorId : (0 : UInt8) ∉ challenge.creatorId
  name : (0 : UInt8) ∉ challenge.name
  description : (0 : UInt8) ∉ challenge.description
  flag : (0 : UInt8) ∉ challenge.flag
  length : (challengeToJsonImpl includeFlag challenge).length ≤ INT_MAX

theorem precise_whole {s : Bytes} (h : (0 : UInt8) ∉ s) (hlen : s.length ≤ INT_MAX) :
    precise s = some s := by
  have hlt : s.length < 2^31 := Nat.lt_of_le_of_lt hlen (by decide)
  have hmod : s.length % 2^32 = s.length := Nat.mod_eq_of_lt (Nat.lt_trans hlt (by decide))
  unfold precise
  rw [hmod, if_pos hlt, List.take_length, List.takeWhile_eq_self_iff.mpr]
  intro c hc
  rw [bne_iff_ne]
  rintro rfl
  exact h hc

theorem precise_genre (g : Json.CtfGenre) :
    precise (ctfGenreToString g) = some (ctfGenreToString g) := by
  apply precise_whole <;> cases g <;> decide +kernel

theorem digitLoop_digits (n : Nat) (hn : 0 < n) : digitLoop n = (Decimal.digits n).length := by
  induction n using Decimal.digits.induct with
  | case1 n h =>
    rw [Decimal.digits, if_pos h, digitLoop, dif_pos hn, digitLoop, dif_neg (by omega)]
    rfl
  | case2 n h ih =>
    rw [Decimal.digits, if_neg h, digitLoop, dif_pos hn, ih (by omega), List.length_append]
    exact Nat.add_comm 1 _

/-- the count of the digits is the length of the numeral -/
theorem intStringLength_eq (value : Int) : intStringLength value = (intText value).length := by
  unfold intStringLength intText
  by_cases h0 : value = 0
  · rw [if_pos h0, h0, if_neg (by decide), Int.natAbs_zero, Decimal.digits, if_pos (by decide)]
    rfl
  · have hpos : 0 < value.natAbs := Int.natAbs_pos.mpr h0
    rw [if_neg h0, digitLoop_digits _ hpos]
    split
    · rw [List.length_append]
      exact congrArg (· + (Decimal.digits value.natAbs).length) (by decide)
    · rfl

/-- the size counted by hand leaves room for the text and its NUL, and for no more -/
theorem bufferSize_eq (includeFlag : Bool) (challenge : Challenge) :
    bufferSize includeFlag challenge = (challengeToJsonImpl includeFlag challenge).length + 1 := by
  have h1 : (ascii "\x7b\"id\":").length = 6 := rfl
  have h2 : (ascii ",\"creator_id\":\"").length = 15 := rfl
  have h3 : (ascii "\",\"name\":\"").length = 10 := rfl
  have h4 : (ascii "\",\"description\":\"").length = 17 := rfl
  have h5 : (ascii "\",\"flag\":\"").length = 10 := rfl
  have h6 : (ascii "\",\"genre\":\"").length = 11 := rfl
  have h7 : (ascii "\"\x7d").length = 2 := rfl
  unfold bufferSize challengeToJsonImpl
  rw [intStringLength_eq]
  cases includeFlag with
  | true =>
    simp only [List.length_append, h1, h2, h3, h4, h5, h6, h7, if_true]
    omega
  | false =>
    simp only [List.length_append, h1, h2, h3, h4, h6, h7, if_false, Bool.false_eq_true,
      List.length_nil]
    omega

theorem challengeFormat_eq {challenge : Challenge} {includeFlag : Bool}
    (h : challenge.Printable includeFlag) :
    challengeFormat includeFlag challenge = some (challengeToJsonImpl includeFlag challenge) := by
  have hsize := bufferSize_eq includeFlag challenge
  have hlength := h.length
  unfold bufferSize at hsize
  unfold challengeFormat
  rw [precise_whole h.creatorId (by omega), precise_whole h.name (by omega),
    precise_whole h.description (by omega),
    precise_genre]
  cases includeFlag with
  | true =>
    rw [if_pos rfl] at hsize
    have hflag := precise_whole h.flag (by omega)
    simp only [hflag, if_true, Option.bind_eq_bind, Option.bind_some]
    rfl
  | false => rfl

theorem intText_noNul (value : Int) : (0 : UInt8) ∉ intText value := by
  have hd : (0 : UInt8) ∉ Decimal.digits value.natAbs := by
    intro h
    have h1 := Decimal.digits_isDigit _ _ h
    revert h1
    decide
  unfold intText
  split
  · rw [List.mem_append, not_or]
    exact ⟨by decide, hd⟩
  · exact hd

theorem challengeToJsonImpl_noNul {challenge : Challenge} {includeFlag : Bool}
    (h : challenge.Printable includeFlag) :
    (0 : UInt8) ∉ challengeToJsonImpl includeFlag challenge := by
  have hgenre : (0 : UInt8) ∉ ctfGenreToString challenge.genre := by
    cases challenge.genre <;> decide +kernel
  have h1 : (0 : UInt8) ∉ ascii "\x7b\"id\":" := by decide
  have h2 : (0 : UInt8) ∉ ascii ",\"creator_id\":\"" := by decide
  have h3 : (0 : UInt8) ∉ ascii "\",\"name\":\"" := by decide
  have h4 : (0 : UInt8) ∉ ascii "\",\"description\":\"" := by decide
  have h5 : (0 : UInt8) ∉ ascii "\",\"flag\":\"" := by decide
  have h6 : (0 : UInt8) ∉ ascii "\",\"genre\":\"" := by decide
  have h7 : (0 : UInt8) ∉ ascii "\"\x7d" := by decide
  unfold challengeToJsonImpl
  cases includeFlag with
  | true =>
    simp only [if_true, List.mem_append, not_or]
    exact ⟨⟨⟨⟨⟨⟨⟨⟨⟨⟨h1, intText_noNul _⟩, h2⟩, h.creatorId⟩, h3⟩, h.name⟩, h4⟩, h.description⟩, h5,
      h.flag⟩, h6⟩,
      hgenre⟩ |> fun h => ⟨h, h7⟩
  | false =>
    simp only [if_false, Bool.false_eq_true, List.mem_append, not_or, List.append_nil]
    exact ⟨⟨⟨⟨⟨⟨⟨⟨⟨h1, intText_noNul _⟩, h2⟩, h.creatorId⟩, h3⟩, h.name⟩, h4⟩, h.description⟩, h6⟩,
      hgenre⟩
      |> fun h => ⟨h, h7⟩

/-- **The writer of a challenge writes its text whole, and declares its length.** -/
theorem challengeToJsonImplBuffer_holds {malloc : Malloc} {challenge : Challenge}
    {includeFlag : Bool} {buffer : Bytes}
    (h : challenge.Printable includeFlag)
    (hm : malloc.run (bufferSize includeFlag challenge) = some buffer) :
    ∃ s, challengeToJsonImplBuffer malloc challenge false includeFlag = some s ∧
      s.Holds (challengeToJsonImpl includeFlag challenge) := by
  have hsize := bufferSize_eq includeFlag challenge
  have hlength := malloc.sized _ _ hm
  refine ⟨⟨some (challengeToJsonImpl includeFlag challenge ++ [0]), bufferSize includeFlag challenge
    - 1⟩, ?_, rfl, ?_,
    challengeToJsonImpl_noNul h⟩
  · unfold challengeToJsonImplBuffer
    rw [if_neg h.id, if_neg (by decide), hm]
    simp only [Option.bind_eq_bind, challengeFormat_eq h, Option.bind_some]
    rw [hsize, snprintfAt_whole (hlength.trans hsize) h.length]
    rfl
  · show bufferSize includeFlag challenge - 1 = _
    omega

/-! ## a list of challenges -/

/-- the loop over the challenges; the inner `none` is an allocation that failed -/
def challengesLoop (malloc : Malloc) (includeFlag : Bool) (total : Nat) :
    List Challenge → Bytes → Nat → Option (Option (Bytes × Nat))
  | [], buffer, offset => some (some (buffer, offset))
  | challenge :: challenges, buffer, offset => do
    let json ← challengeToJsonImplBuffer malloc challenge false includeFlag
    match json.ptr with
    | none => some none
    | some ptr =>
      let text := cString ptr
      if offset > total then none
      else do
        let buffer ← snprintfAt INT_MAX buffer offset (total - offset) text
        if challenges = [] then
          challengesLoop malloc includeFlag total challenges buffer (offset + text.length)
        else do
          let buffer ← storeAt buffer (offset + text.length) (ascii ",")
          challengesLoop malloc includeFlag total challenges buffer (offset + text.length + 1)

/-- the first loop: what the challenges add to `total_size` -/
def sizesLoop (malloc : Malloc) (includeFlag : Bool) : List Challenge → Option Nat
  | [] => some 0
  | challenge :: challenges => do
    let json ← challengeToJsonImplBuffer malloc challenge true includeFlag
    let sizes ← sizesLoop malloc includeFlag challenges
    some (json.len + 1 + sizes)

/-- the second half of `challenges_to_json_impl`, on the buffer -/
def fillBuffer (malloc : Malloc) (includeFlag : Bool) (totalSize : Nat)
    (challenges : List Challenge) (buffer : Bytes) :
    Option StringT := do
  let buffer ← snprintfAt INT_MAX buffer 0 totalSize (ascii "[")
  match ← challengesLoop malloc includeFlag totalSize challenges buffer 1 with
  | none => some .null
  | some (buffer, offset) => do
    let buffer ← storeAt buffer offset (ascii "]")
    let buffer ← storeAt buffer (offset + 1) [0]
    some ⟨some buffer, totalSize - 1⟩

/-- `challenges_to_json_impl`; a size that wraps around is followed no further -/
def challengesToJsonImplBuffer (malloc : Malloc) (challenges : List Challenge)
    (onlySize includeFlag : Bool) :
    Option StringT :=
  if onlySize then some .null
  else do
    let sizes ← sizesLoop malloc includeFlag challenges
    let totalSize := 1 + sizes + 1
    if SIZE_MAX < totalSize then none
    else
      match malloc.run totalSize with
      | none => some .null
      | some buffer => fillBuffer malloc includeFlag totalSize challenges buffer

/-- `total_size` -/
def totalSize (includeFlag : Bool) (challenges : List Challenge) : Nat :=
  1 + (challenges.map fun challenge => bufferSize includeFlag challenge - 1 + 1).sum + 1

section
variable {malloc : Malloc} {includeFlag : Bool}

variable (malloc includeFlag) in
theorem sizesLoop_eq {challenges : List Challenge}
    (h : ∀ challenge ∈ challenges, challenge.id ≠ INT_MIN) :
    ∃ sizes, sizesLoop malloc includeFlag challenges = some sizes ∧ 1 + sizes + 1 =
      totalSize includeFlag challenges := by
  induction challenges with
  | nil => exact ⟨0, rfl, rfl⟩
  | cons challenge challenges ih =>
    obtain ⟨h1, h2⟩ := List.forall_mem_cons.mp h
    obtain ⟨sizes, hsizes, htotal⟩ := ih h2
    refine ⟨bufferSize includeFlag challenge - 1 + 1 + sizes, ?_, ?_⟩
    · rw [sizesLoop, hsizes, challengeToJsonImplBuffer, if_neg h1]
      rfl
    · unfold totalSize at htotal ⊢
      rw [List.map_cons, List.sum_cons]
      omega

/-- an id whose sign cannot be dropped stops the first loop -/
theorem sizesLoop_none {challenges : List Challenge} {challenge : Challenge}
    (h : challenge ∈ challenges)
    (hid : challenge.id = INT_MIN) : sizesLoop malloc includeFlag challenges = none := by
  induction challenges with
  | nil => cases h
  | cons first challenges ih =>
    rw [sizesLoop]
    rcases List.mem_cons.mp h with rfl | h
    · rw [challengeToJsonImplBuffer, if_pos hid]
      rfl
    · rw [ih h]
      cases challengeToJsonImplBuffer malloc first true includeFlag <;> rfl

/-- the string that a challenge is written as -/
def Writes (malloc : Malloc) (includeFlag : Bool) (challenge : Challenge) (text : Bytes) : Prop :=
  ∃ s rest, challengeToJsonImplBuffer malloc challenge false includeFlag = some s ∧
    s.ptr = some (text ++ 0 :: rest) ∧
    (0 : UInt8) ∉ text ∧ text.length ≤ INT_MAX

/-- the room that texts, their separators and the end take -/
def roomFor (texts : List Bytes) : Nat := (texts.map fun text => text.length + 1).sum + 1

theorem roomFor_cons (text : Bytes) (texts : List Bytes) :
    roomFor (text :: texts) = text.length + 1 + roomFor texts := by
  unfold roomFor
  rw [List.map_cons, List.sum_cons]
  omega

theorem intercalate_cons_append (out text : Bytes) {texts : List Bytes} (h : texts ≠ []) :
    out ++ (ascii ",").intercalate (text :: texts) = out ++ text ++ ascii "," ++
    (ascii ",").intercalate texts := by
  rw [List.intercalate_cons_of_ne_nil h]
  simp only [List.append_assoc]

/-- the loop fills the buffer from the offset on -/
theorem challengesLoop_fills {challenges : List Challenge} {texts : List Bytes}
    (hne : challenges ≠ [])
    (h : List.Forall₂ (Writes malloc includeFlag) challenges texts) (out rest : Bytes) (total : Nat)
    (htotal : total = out.length + rest.length) (hroom : roomFor texts ≤ rest.length) :
    ∃ rest', rest'.length + roomFor texts = rest.length + 2 ∧
      ((∀ c ∈ rest, c = 0) → ∀ c ∈ rest', c = 0) ∧
      challengesLoop malloc includeFlag total challenges (out ++ rest) out.length =
        some (some (out ++ (ascii ",").intercalate texts ++ rest',
          (out ++ (ascii ",").intercalate texts).length)) := by
  have hcomma : ascii "," = [44] := rfl
  induction h generalizing out rest with
  | nil => exact absurd rfl hne
  | @cons challenge text challenges texts hwrites htail ih =>
    obtain ⟨s, garbage, hs, hptr, hnul, hmax⟩ := hwrites
    rw [roomFor_cons] at hroom
    have hsn : snprintfAt INT_MAX (out ++ rest) out.length (total - out.length) text =
        some (out ++ text ++ 0 :: rest.drop (text.length + 1)) := by
      rw [htotal, Nat.add_sub_cancel_left]
      exact snprintfAt_append (by omega) hmax
    have hoff : ¬ out.length > total := by omega
    rw [challengesLoop, hs]
    simp only [Option.bind_eq_bind, Option.bind_some, hptr, cString_eq hnul, if_neg hoff, hsn]
    by_cases hlast : challenges = []
    · subst hlast
      cases htail
      have h1 : roomFor [] = 1 := rfl
      refine ⟨0 :: rest.drop (text.length + 1), ?_, ?_, ?_⟩
      · rw [List.length_cons, List.length_drop, roomFor_cons]
        omega
      · exact fun hzero => List.forall_mem_cons.mpr ⟨rfl, fun c hc => hzero c (List.mem_of_mem_drop hc)⟩
      · rw [if_pos rfl, challengesLoop, List.intercalate_singleton, List.length_append]
    · have hstore :
        storeAt (out ++ text ++ 0 :: rest.drop (text.length + 1)) (out ++ text).length (ascii ",") =
          some (out ++ text ++ ascii "," ++ rest.drop (text.length + 1)) := by
        rw [storeAt_exact (by rw [hcomma, List.length_cons]; exact Nat.le_add_left _ _), hcomma]
        rfl
      have htexts : texts ≠ [] := by
        rintro rfl
        cases htail
        exact hlast rfl
      rw [List.length_append] at hstore
      rw [if_neg hlast, hstore]
      simp only [Option.bind_some]
      obtain ⟨rest', h1, hzero, h2⟩ := ih hlast (out ++ text ++ ascii ",")
        (rest.drop (text.length + 1))
        (by simp only [List.length_append, List.length_drop, hcomma, List.length_singleton]; omega)
        (by rw [List.length_drop]; omega)
      have hoffset : (out ++ text ++ ascii ",").length = out.length + text.length + 1 := by
        simp only [List.length_append, hcomma, List.length_singleton]
      rw [hoffset] at h2
      rw [intercalate_cons_append out text htexts]
      refine ⟨rest', ?_, fun hrest => hzero fun c hc => hrest c (List.mem_of_mem_drop hc), h2⟩
      rw [List.length_drop] at h1
      rw [roomFor_cons]
      omega

theorem intercalate_noNul {texts : List Bytes} (h : ∀ text ∈ texts, (0 : UInt8) ∉ text) :
    (0 : UInt8) ∉ (ascii ",").intercalate texts := by
  have hcomma : (0 : UInt8) ∉ ascii "," := by decide
  induction texts with
  | nil => exact List.not_mem_nil
  | cons text texts ih =>
    obtain ⟨h1, h2⟩ := List.forall_mem_cons.mp h
    by_cases hlast : texts = []
    · rw [hlast, List.intercalate_singleton]
      exact h1
    · rw [List.intercalate_cons_of_ne_nil hlast, List.mem_append, List.mem_append, not_or, not_or]
      exact ⟨⟨h1, hcomma⟩, ih h2⟩

theorem Writes.noNul {challenges : List Challenge} {texts : List Bytes}
    (h : List.Forall₂ (Writes malloc includeFlag) challenges texts) :
    ∀ text ∈ texts, (0 : UInt8) ∉ text := by
  induction h with
  | nil => exact List.forall_mem_nil _
  | cons hw _ ih =>
    obtain ⟨-, -, -, -, hnul, -⟩ := hw
    exact List.forall_mem_cons.mpr ⟨hnul, ih⟩

theorem arrayText_noNul {texts : List Bytes} (h : ∀ text ∈ texts, (0 : UInt8) ∉ text) :
    (0 : UInt8) ∉ arrayText texts := by
  unfold arrayText
  rw [List.mem_append, List.mem_append, not_or, not_or]
  exact ⟨⟨by decide, intercalate_noNul h⟩, by decide⟩

theorem mem_arrayText {texts : List Bytes} {text : Bytes} (h : text ∈ texts) {c : UInt8}
    (hc : c ∈ text) :
    c ∈ arrayText texts := by
  unfold arrayText
  refine List.mem_append_left _ (List.mem_append_right _ ?_)
  induction texts with
  | nil => cases h
  | cons first texts ih =>
    by_cases hlast : texts = []
    · subst hlast
      rw [List.intercalate_singleton, ← List.mem_singleton.mp h]
      exact hc
    · rw [List.intercalate_cons_of_ne_nil hlast]
      rcases List.mem_cons.mp h with rfl | h
      · exact List.mem_append_left _ (List.mem_append_left _ hc)
      · exact List.mem_append_right _ (ih h)

theorem arrayText_length {texts : List Bytes} (h : texts ≠ []) :
    (arrayText texts).length = roomFor texts := by
  have hcomma : (ascii ",").length = 1 := by decide
  have hjoin : ∀ {texts : List Bytes}, texts ≠ [] → ((ascii ",").intercalate texts).length + 2 =
    roomFor texts := by
    intro texts
    induction texts with
    | nil => exact fun h => absurd rfl h
    | cons text texts ih =>
      intro _
      rw [roomFor_cons]
      by_cases hlast : texts = []
      · rw [hlast, List.intercalate_singleton]
        rfl
      · have := ih hlast
        rw [List.intercalate_cons_of_ne_nil hlast, List.length_append, List.length_append, hcomma]
        omega
  have hopen : (ascii "[").length = 1 := by decide
  have hclose : (ascii "]").length = 1 := by decide
  have := hjoin h
  unfold arrayText
  rw [List.length_append, List.length_append, hopen, hclose]
  omega

/-- the array of the texts that the challenges are written as, a NUL, and what is left of the
buffer -/
theorem challengesToJsonImplBuffer_fills {challenges : List Challenge} {texts : List Bytes}
    (hne : challenges ≠ []) (hid : ∀ challenge ∈ challenges, challenge.id ≠ INT_MIN)
    (h : List.Forall₂ (Writes malloc includeFlag) challenges texts)
    {buffer : Bytes} (hb : malloc.run (totalSize includeFlag challenges) = some buffer)
    (hmax : totalSize includeFlag challenges ≤ SIZE_MAX)
    (hroom : roomFor texts + 1 ≤ totalSize includeFlag challenges) :
    ∃ rest, challengesToJsonImplBuffer malloc challenges false includeFlag =
        some ⟨some (arrayText texts ++ 0 :: rest), totalSize includeFlag challenges - 1⟩ ∧
      rest.length + (roomFor texts + 1) = totalSize includeFlag challenges ∧
      ((∀ c ∈ buffer, c = 0) → ∀ c ∈ rest, c = 0) := by
  have hopen : ascii "[" = [91] := rfl
  have hclose : ascii "]" = [93] := rfl
  obtain ⟨sizes, hsizes, htotal⟩ := sizesLoop_eq malloc includeFlag hid
  have hsized := malloc.sized _ _ hb
  have hpos : 2 ≤ roomFor texts := by
    cases h with
    | nil => exact absurd rfl hne
    | @cons _ text _ texts _ _ =>
      have h1 : 1 ≤ roomFor texts := Nat.le_add_left _ _
      rw [roomFor_cons]
      omega
  rw [← htotal] at hb hmax hroom hsized ⊢
  -- the opening bracket and its NUL, and what is behind them
  have hfirst : snprintfAt INT_MAX buffer 0 (1 + sizes + 1) (ascii "[") =
    some (ascii "[" ++ 0 :: buffer.drop 2) := by
    have h1 : snprintfAt INT_MAX ([] ++ buffer) 0 buffer.length (ascii "[") =
        some ([] ++ ascii "[" ++ 0 :: buffer.drop ((ascii "[").length + 1)) :=
      snprintfAt_append (by rw [hopen, List.length_singleton]; omega) (by decide)
    rw [hsized] at h1
    exact h1
  obtain ⟨rest, hrest, hzero, hloop⟩ := challengesLoop_fills hne h (ascii "[") (0 :: buffer.drop 2)
    (1 + sizes + 1)
    (by rw [hopen, List.length_singleton, List.length_cons, List.length_drop]; omega)
    (by rw [List.length_cons, List.length_drop]; omega)
  rw [List.length_cons, List.length_drop] at hrest
  have harray : arrayText texts = ascii "[" ++ (ascii ",").intercalate texts ++ ascii "]" := rfl
  generalize ascii "[" ++ (ascii ",").intercalate texts = out at hloop harray
  match rest, hrest, hzero with
  | [], hrest, _ =>
    rw [List.length_nil] at hrest
    omega
  | [_], hrest, _ =>
    rw [List.length_singleton] at hrest
    omega
  | x :: y :: rest, hrest, hzero =>
    have hstore1 : storeAt (out ++ x :: y :: rest) out.length (ascii "]") =
      some (out ++ ascii "]" ++ y :: rest) := by
      rw [storeAt_exact (by rw [hclose]; exact Nat.le_add_left _ _), hclose]
      rfl
    have hstore2 : storeAt (out ++ ascii "]" ++ y :: rest) (out.length + 1) [0] =
      some (out ++ ascii "]" ++ 0 :: rest) := by
      have hend : out.length + 1 = (out ++ ascii "]").length := by
        rw [List.length_append, hclose]
        rfl
      rw [hend, storeAt_exact (by exact Nat.le_add_left _ _)]
      simp
    refine ⟨rest, ?_, ?_, fun hbuffer c hc =>
      hzero ?_ c (List.mem_cons_of_mem _ (List.mem_cons_of_mem _ hc))⟩
    · unfold challengesToJsonImplBuffer
      rw [if_neg (by decide), hsizes]
      simp only [Option.bind_eq_bind, Option.bind_some]
      rw [if_neg (Nat.not_lt.mpr hmax), hb]
      show fillBuffer malloc includeFlag (1 + sizes + 1) challenges buffer = _
      have hopen1 : (ascii "[").length = 1 := by rw [hopen]; rfl
      rw [hopen1] at hloop
      unfold fillBuffer
      simp only [Option.bind_eq_bind, hfirst, Option.bind_some, hloop, hstore1, hstore2, harray]
    · simp only [List.length_cons] at hrest
      omega
    · exact List.forall_mem_cons.mpr ⟨rfl, fun c hc => hbuffer c (List.mem_of_mem_drop hc)⟩

theorem writes_of_printable {challenge : Challenge} {buffer : Bytes}
    (h : challenge.Printable includeFlag)
    (hm : malloc.run (bufferSize includeFlag challenge) = some buffer) :
    Writes malloc includeFlag challenge (challengeToJsonImpl includeFlag challenge) := by
  obtain ⟨s, hs, hholds⟩ := challengeToJsonImplBuffer_holds h hm
  exact ⟨s, [], hs, hholds.ptr, hholds.noNul, h.length⟩

theorem totalSize_eq (includeFlag : Bool) (challenges : List Challenge) :
    totalSize includeFlag challenges = roomFor (challenges.map (challengeToJsonImpl includeFlag)) +
    1 := by
  unfold totalSize roomFor
  simp only [bufferSize_eq, Nat.add_sub_cancel, List.map_map]
  show 1 + (challenges.map fun challenge => (challengeToJsonImpl includeFlag challenge).length
    + 1).sum + 1 =
    (challenges.map fun challenge => (challengeToJsonImpl includeFlag challenge).length + 1).sum +
    1 + 1
  omega

/-- the lists whose texts fit: each in an `int`, all together in a size -/
structure Fits (includeFlag : Bool) (challenges : List Challenge) : Prop where
  length : ∀ challenge ∈ challenges, (challengeToJsonImpl includeFlag challenge).length ≤ INT_MAX
  total : totalSize includeFlag challenges ≤ SIZE_MAX

/-- **The writer of a list that is not empty writes the array whole, and declares its length.** -/
theorem challengesToJsonImplBuffer_holds {challenges : List Challenge} (hne : challenges ≠ [])
    (hp : ∀ challenge ∈ challenges, challenge.Printable includeFlag)
    (hm : ∀ size, ∃ buffer, malloc.run size = some buffer)
    (hmax : totalSize includeFlag challenges ≤ SIZE_MAX) :
    ∃ s, challengesToJsonImplBuffer malloc challenges false includeFlag = some s ∧
      s.Holds (arrayText (challenges.map (challengeToJsonImpl includeFlag))) := by
  have hwrites : List.Forall₂ (Writes malloc includeFlag) challenges
    (challenges.map (challengeToJsonImpl includeFlag)) := by
    rw [List.forall₂_map_right_iff, List.forall₂_same]
    intro challenge hc
    obtain ⟨b, hb⟩ := hm (bufferSize includeFlag challenge)
    exact writes_of_printable (hp challenge hc) hb
  have hsize := totalSize_eq includeFlag challenges
  obtain ⟨buffer, hb⟩ := hm (totalSize includeFlag challenges)
  obtain ⟨rest, hs, hrest, -⟩ := challengesToJsonImplBuffer_fills hne (fun c hc => (hp c hc).id)
    hwrites hb hmax (by omega)
  have hnil : rest = [] := List.length_eq_zero_iff.mp (by omega)
  rw [hnil] at hs
  refine ⟨_, hs, rfl, ?_, arrayText_noNul (Writes.noNul hwrites)⟩
  show totalSize includeFlag challenges - 1 = _
  rw [arrayText_length (by simpa using hne)]
  omega

/-! ## a list that was written fits -/

/-- a string that is written ends inside of its buffer -/
theorem challengeToJsonImplBuffer_string {challenge : Challenge} {s : StringT} {ptr : Bytes}
    (h : challengeToJsonImplBuffer malloc challenge false includeFlag = some s)
    (hptr : s.ptr = some ptr) :
    ∃ rest, ptr = cString ptr ++ 0 :: rest ∧ ptr.length = bufferSize includeFlag challenge := by
  have hsize := bufferSize_eq includeFlag challenge
  unfold challengeToJsonImplBuffer at h
  split at h
  · cases h
  rw [if_neg (by decide)] at h
  split at h
  · cases h
    cases hptr
  next buffer hb =>
  simp only [Option.bind_eq_bind, Option.bind_eq_some_iff] at h
  obtain ⟨text, -, out, hout, h⟩ := h
  obtain rfl := Option.some.inj h
  obtain rfl := Option.some.inj hptr
  exact Buffer.snprintfAt_cString hout (malloc.sized _ _ hb) (by omega)

/-- what is written of a challenge is no longer than its text -/
theorem Writes.length_le {challenge : Challenge} {text : Bytes}
    (h : Writes malloc includeFlag challenge text) :
    text.length ≤ (challengeToJsonImpl includeFlag challenge).length := by
  obtain ⟨s, rest, hs, hptr, -, -⟩ := h
  have hsize := bufferSize_eq includeFlag challenge
  obtain ⟨-, -, hlength⟩ := challengeToJsonImplBuffer_string hs hptr
  rw [List.length_append, List.length_cons, hsize] at hlength
  omega

theorem Writes.room_le {challenges : List Challenge} {texts : List Bytes}
    (h : List.Forall₂ (Writes malloc includeFlag) challenges texts) :
    roomFor texts ≤ roomFor (challenges.map (challengeToJsonImpl includeFlag)) := by
  induction h with
  | nil => exact Nat.le_refl _
  | cons hw _ ih =>
    have := hw.length_le
    rw [List.map_cons, roomFor_cons, roomFor_cons]
    omega

/-- texts that take as much room as the whole texts are the whole texts, as long as an `int`
allows -/
theorem Writes.length_of_room {challenges : List Challenge} {texts : List Bytes}
    (h : List.Forall₂ (Writes malloc includeFlag) challenges texts)
    (hroom : roomFor (challenges.map (challengeToJsonImpl includeFlag)) ≤ roomFor texts) :
    ∀ challenge ∈ challenges, (challengeToJsonImpl includeFlag challenge).length ≤ INT_MAX := by
  induction h with
  | nil => exact List.forall_mem_nil _
  | cons hw htail ih =>
    have h1 := hw.length_le
    have h2 := Writes.room_le htail
    obtain ⟨-, -, -, -, -, hmax⟩ := hw
    rw [List.map_cons, roomFor_cons, roomFor_cons] at hroom
    exact List.forall_mem_cons.mpr ⟨by omega, ih (by omega)⟩

/-- a loop that comes to its end has written every challenge -/
theorem challengesLoop_texts {challenges : List Challenge} {total offset : Nat} {buffer : Bytes}
    {r : Bytes × Nat}
    (h : challengesLoop malloc includeFlag total challenges buffer offset = some (some r)) :
    ∃ texts, List.Forall₂ (Writes malloc includeFlag) challenges texts := by
  induction challenges generalizing buffer offset with
  | nil => exact ⟨[], .nil⟩
  | cons challenge challenges ih =>
    rw [challengesLoop] at h
    simp only [Option.bind_eq_bind, Option.bind_eq_some_iff] at h
    obtain ⟨json, hjson, h⟩ := h
    split at h
    · cases h
    next ptr hptr =>
    split at h
    · cases h
    simp only [Option.bind_eq_some_iff] at h
    obtain ⟨out, hout, h⟩ := h
    have htail : ∃ texts, List.Forall₂ (Writes malloc includeFlag) challenges texts := by
      split at h
      · exact ih h
      · obtain ⟨out', -, h⟩ := Option.bind_eq_some_iff.mp h
        exact ih h
    obtain ⟨texts, htexts⟩ := htail
    have hmax : (cString ptr).length ≤ INT_MAX := by
      unfold snprintfAt at hout
      split at hout
      · cases hout
      · omega
    obtain ⟨rest, hrest, -⟩ := challengeToJsonImplBuffer_string hjson hptr
    exact ⟨cString ptr :: texts,
      .cons ⟨json, rest, hjson, by rw [hptr, ← hrest], Buffer.cString_noNul ptr, hmax⟩ htexts⟩

/-- a list that is written: the array of what the challenges are written as, in a buffer of the size
of the whole array -/
structure Filled (malloc : Malloc) (includeFlag : Bool) (challenges : List Challenge) (s : StringT)
    (texts : List Bytes) (rest : Bytes) : Prop where
  writes : List.Forall₂ (Writes malloc includeFlag) challenges texts
  ptr : s.ptr = some (arrayText texts ++ 0 :: rest)
  len : s.len + 1 = totalSize includeFlag challenges
  room : rest.length + (roomFor texts + 1) = totalSize includeFlag challenges
  total : totalSize includeFlag challenges ≤ SIZE_MAX
  zero : (∀ size buffer, malloc.run size = some buffer → ∀ c ∈ buffer, c = 0) → ∀ c ∈ rest, c = 0

theorem filled_of_some {challenges : List Challenge} {s : StringT} {buffer : Bytes}
    (hne : challenges ≠ []) (hid : ∀ challenge ∈ challenges, challenge.id ≠ INT_MIN)
    (h : challengesToJsonImplBuffer malloc challenges false includeFlag = some s)
    (hs : s.ptr = some buffer) :
    ∃ texts rest, Filled malloc includeFlag challenges s texts rest := by
  obtain ⟨sizes, hsizes, htotal⟩ := sizesLoop_eq malloc includeFlag hid
  have hroom := totalSize_eq includeFlag challenges
  have hwhole := h
  unfold challengesToJsonImplBuffer at h
  rw [if_neg (by decide), hsizes] at h
  simp only [Option.bind_eq_bind, Option.bind_some] at h
  split at h
  · cases h
  next hmax =>
  rw [htotal] at h hmax
  split at h
  · cases h
    cases hs
  next memory hb =>
  have htexts : ∃ texts, List.Forall₂ (Writes malloc includeFlag) challenges texts := by
    unfold fillBuffer at h
    simp only [Option.bind_eq_bind, Option.bind_eq_some_iff] at h
    obtain ⟨b, -, r, hloop, h⟩ := h
    cases r with
    | none =>
      cases h
      cases hs
    | some r => exact challengesLoop_texts hloop
  obtain ⟨texts, hwrites⟩ := htexts
  have hle := Writes.room_le hwrites
  obtain ⟨rest, hfill, hrest, hzero⟩ := challengesToJsonImplBuffer_fills hne hid hwrites hb
    (by omega) (by omega)
  rw [hwhole] at hfill
  obtain rfl := Option.some.inj hfill
  exact ⟨texts, rest, hwrites,
    rfl, by show totalSize includeFlag challenges - 1 + 1 = _; omega, hrest, by omega,
    fun hmalloc => hzero (hmalloc _ _ hb)⟩

/-- a list that is written whole fits -/
theorem Fits.of_holds {challenges : List Challenge} {s : StringT} {text : Bytes}
    (hne : challenges ≠ []) (hid : ∀ challenge ∈ challenges, challenge.id ≠ INT_MIN)
    (h : challengesToJsonImplBuffer malloc challenges false includeFlag = some s)
    (hs : s.Holds text) :
    Fits includeFlag challenges := by
  obtain ⟨texts, rest, hfilled⟩ := filled_of_some hne hid h hs.ptr
  have hroom := totalSize_eq includeFlag challenges
  -- both strings end at their first NUL
  have hptr := Option.some.inj (hs.ptr.symm.trans hfilled.ptr)
  have htext : text = arrayText texts := by
    rw [← cString_eq hs.noNul [], hptr, cString_eq (arrayText_noNul (Writes.noNul hfilled.writes))]
  rw [htext] at hptr
  obtain rfl : [] = rest := (List.cons.inj (List.append_cancel_left hptr)).2
  have hrest := hfilled.room
  rw [List.length_nil] at hrest
  exact ⟨Writes.length_of_room hfilled.writes (by omega), hfilled.total⟩

/-! ## the bytes that are sent -/

/-- memory that is all zero, or none -/
def jsonMemory (mem : Bool) : Malloc := if mem then .zeroed else .exhausted

/-- the bytes of a string that a response sends -/
def StringT.sent (s : StringT) : Option Bytes := s.ptr.map fun buffer => buffer.take s.len

theorem jsonMemory_zero (mem : Bool) : ∀ size buffer, (jsonMemory mem).run size = some buffer →
    ∀ c ∈ buffer, c = 0 := by
  intro size buffer hb c hc
  cases mem with
  | false => cases hb
  | true =>
    cases hb
    exact List.eq_of_mem_replicate hc

theorem StringT.Holds.sent {s : StringT} {text : Bytes} (h : s.Holds text) :
    s.sent = some text := by
  unfold StringT.sent
  rw [h.ptr, Option.map_some, h.len, List.take_left]

/-- the texts of a challenge that a NUL would cut off -/
theorem noNul_of_text {challenge : Challenge} (hflag : (0 : UInt8) ∉ challenge.flag)
    (h : (0 : UInt8) ∉ challengeToJsonImpl includeFlag challenge) (hid : challenge.id ≠ INT_MIN)
    (hlength : (challengeToJsonImpl includeFlag challenge).length ≤ INT_MAX) :
    challenge.Printable includeFlag := by
  have hparts := h
  unfold challengeToJsonImpl at hparts
  simp only [List.mem_append, not_or] at hparts
  obtain ⟨⟨⟨⟨⟨⟨⟨⟨⟨⟨⟨-, -⟩, -⟩, hcreator⟩, -⟩, hname⟩, -⟩, hdescription⟩, -⟩, -⟩, -⟩, -⟩ := hparts
  exact ⟨hid, hcreator, hname, hdescription, hflag, hlength⟩

variable (includeFlag) in
/-- **What is sent of a list that is not empty is the array of its challenges exactly when every
challenge can be printed and the size of the text is a `size_t`.** -/
theorem challengesToJson_sent_iff {challenges : List Challenge} (hne : challenges ≠ [])
    (hflag : ∀ challenge ∈ challenges, (0 : UInt8) ∉ challenge.flag) :
    (∃ s, challengesToJsonImplBuffer (jsonMemory true) challenges false includeFlag = some s ∧
      s.sent = some (arrayText (challenges.map (challengeToJsonImpl includeFlag)))) ↔
    (∀ challenge ∈ challenges, challenge.Printable includeFlag) ∧ totalSize includeFlag challenges ≤
      SIZE_MAX := by
  have hm : ∀ size, ∃ buffer, (jsonMemory true).run size = some buffer := fun size => ⟨_, rfl⟩
  constructor
  · rintro ⟨s, hs, hsent⟩
    obtain ⟨buffer, hptr, hbody⟩ := Option.map_eq_some_iff.mp hsent
    have hid : ∀ challenge ∈ challenges, challenge.id ≠ INT_MIN := by
      intro challenge hc hmin
      unfold challengesToJsonImplBuffer at hs
      rw [if_neg (by decide), sizesLoop_none hc hmin] at hs
      cases hs
    obtain ⟨texts, rest, hfilled⟩ := filled_of_some hne hid hs hptr
    have hroom := totalSize_eq includeFlag challenges
    have htexts : texts ≠ [] := by
      rintro rfl
      cases hfilled.writes
      exact hne rfl
    have hlength := arrayText_length htexts
    have hlen := hfilled.len
    have hrest := hfilled.room
    -- behind the texts that were written there is nothing but zeros, and the array ends in a
    -- bracket
    have hbehind : rest = [] := by
      by_contra hsome
      have hpos : 0 < rest.length := List.length_pos_iff.mpr hsome
      obtain rfl := Option.some.inj (hptr.symm.trans hfilled.ptr)
      have hcut : s.len = (arrayText texts).length + rest.length := by omega
      rw [hcut, List.take_length_add_append] at hbody
      have hzero : ∀ c ∈ (0 :: rest).take rest.length, c = 0 := by
        intro c hc
        rcases List.mem_cons.mp (List.mem_of_mem_take hc) with rfl | hc
        · rfl
        · exact hfilled.zero (jsonMemory_zero true) c hc
      have hlast := congrArg List.getLast? hbody
      have hcons : (0 :: rest).take rest.length ≠ [] := by
        intro hnil
        have := congrArg List.length hnil
        rw [List.length_take, List.length_cons, List.length_nil] at this
        omega
      rw [List.getLast?_append_of_ne_nil _ hcons, List.getLast?_eq_getLast_of_ne_nil hcons,
        hzero _ (List.getLast_mem hcons)] at hlast
      unfold arrayText at hlast
      rw [List.getLast?_append_of_ne_nil _ (by decide)] at hlast
      revert hlast
      decide
    rw [hbehind] at hrest
    rw [List.length_nil] at hrest
    have hwhole : arrayText texts = arrayText
      (challenges.map (challengeToJsonImpl includeFlag)) := by
      obtain rfl := Option.some.inj (hptr.symm.trans hfilled.ptr)
      have hcut : s.len = (arrayText texts).length := by omega
      rw [hcut, List.take_left] at hbody
      exact hbody
    have hnul := arrayText_noNul (Writes.noNul hfilled.writes)
    rw [hwhole] at hnul
    refine ⟨fun challenge hc => noNul_of_text (hflag challenge hc) (fun hzero => hnul ?_)
      (hid challenge hc)
      (Writes.length_of_room hfilled.writes (by omega) challenge hc), hfilled.total⟩
    exact mem_arrayText (List.mem_map_of_mem hc) hzero
  · rintro ⟨hp, hmax⟩
    obtain ⟨s, hs, hholds⟩ := challengesToJsonImplBuffer_holds hne hp hm hmax
    exact ⟨s, hs, hholds.sent⟩

variable (includeFlag) in
/-- without memory there is no text, if there is a size for it -/
theorem challengesToJson_exhausted (challenges : List Challenge) :
    (challengesToJsonImplBuffer (jsonMemory false) challenges false includeFlag = some .null ↔
      (∀ challenge ∈ challenges, challenge.id ≠ INT_MIN) ∧ totalSize includeFlag challenges
      ≤ SIZE_MAX) ∧
    ∀ s, challengesToJsonImplBuffer (jsonMemory false) challenges false includeFlag = some s →
      s = .null := by
  by_cases hid : ∀ challenge ∈ challenges, challenge.id ≠ INT_MIN
  · obtain ⟨sizes, hsizes, htotal⟩ := sizesLoop_eq (jsonMemory false) includeFlag hid
    unfold challengesToJsonImplBuffer
    rw [if_neg (by decide), hsizes, ← htotal]
    simp only [Option.bind_eq_bind, Option.bind_some]
    by_cases hmax : SIZE_MAX < 1 + sizes + 1
    · rw [if_pos hmax]
      exact ⟨iff_of_false (by simp) fun h => absurd h.2 (by omega), by simp⟩
    · rw [if_neg hmax]
      exact ⟨⟨fun _ => ⟨hid, by omega⟩, fun _ => rfl⟩, fun s h => (Option.some.inj h).symm⟩
  · have hnone : challengesToJsonImplBuffer (jsonMemory false) challenges false
      includeFlag = none := by
      push Not at hid
      obtain ⟨challenge, hc, hmin⟩ := hid
      unfold challengesToJsonImplBuffer
      rw [if_neg (by decide), sizesLoop_none hc hmin]
      rfl
    rw [hnone]
    exact ⟨iff_of_false (by simp) fun h => absurd h.1 hid, by simp⟩

/-! ## what the writers owe -/

/-- the list is written whole inside of its buffer, and so is each element, as long as announced -/
structure ListWritten (malloc : Malloc) (includeFlag : Bool) (challenges : List Challenge) :
    Prop where
  list : ∃ s, challengesToJsonImplBuffer malloc challenges false includeFlag = some s ∧
    s.Holds (arrayText (challenges.map (challengeToJsonImpl includeFlag)))
  elements : ∀ challenge ∈ challenges, ∃ size s,
    challengeToJsonImplBuffer malloc challenge true includeFlag = some size ∧
    challengeToJsonImplBuffer malloc challenge false includeFlag = some s ∧
    s.Holds (challengeToJsonImpl includeFlag challenge) ∧
    size.len = (challengeToJsonImpl includeFlag challenge).length

/-- without a challenge there is no room for the terminator -/
theorem challengesToJsonImplBuffer_nil (hm : ∀ size, ∃ buffer, malloc.run size = some buffer) :
    challengesToJsonImplBuffer malloc [] false includeFlag = none := by
  obtain ⟨buffer, hb⟩ := hm 2
  have hsized := malloc.sized _ _ hb
  match buffer, hsized with
  | [x, y], _ =>
    unfold challengesToJsonImplBuffer
    rw [if_neg (by decide)]
    show (if SIZE_MAX < 2 then none else match malloc.run 2 with
      | none => some .null
      | some buffer => fillBuffer malloc includeFlag 2 [] buffer) = none
    rw [if_neg (by decide), hb]
    rfl

/-- **The writers write a list whole and inside of its buffer exactly when it is not empty and no id
is `INT_MIN`.** -/
theorem challengesToJson_written_iff {challenges : List Challenge}
    (hnul : ∀ challenge ∈ challenges, (0 : UInt8) ∉ challenge.creatorId ∧
      (0 : UInt8) ∉ challenge.name ∧
      (0 : UInt8) ∉ challenge.description ∧ (0 : UInt8) ∉ challenge.flag)
    (hfits : Fits includeFlag challenges) (hm : ∀ size, ∃ buffer, malloc.run size = some buffer) :
    ListWritten malloc includeFlag challenges ↔ challenges ≠ [] ∧ ∀ challenge ∈ challenges,
      challenge.id ≠ INT_MIN := by
  constructor
  · intro h
    refine ⟨?_, fun challenge hc hid => ?_⟩
    · rintro rfl
      obtain ⟨s, hs, -⟩ := h.list
      rw [challengesToJsonImplBuffer_nil hm] at hs
      cases hs
    · obtain ⟨size, -, hs, -⟩ := h.elements challenge hc
      rw [challengeToJsonImplBuffer, if_pos hid] at hs
      cases hs
  · rintro ⟨hne, hid⟩
    have hp : ∀ challenge ∈ challenges, challenge.Printable includeFlag := fun challenge hc =>
      ⟨hid challenge hc, (hnul challenge hc).1, (hnul challenge hc).2.1, (hnul challenge hc).2.2.1,
        (hnul challenge hc).2.2.2, hfits.length challenge hc⟩
    refine ⟨challengesToJsonImplBuffer_holds hne hp hm hfits.total, fun challenge hc => ?_⟩
    obtain ⟨buffer, hb⟩ := hm (bufferSize includeFlag challenge)
    obtain ⟨s, hs, hholds⟩ := challengeToJsonImplBuffer_holds (hp challenge hc) hb
    refine ⟨⟨none, bufferSize includeFlag challenge - 1⟩, s, ?_, hs, hholds, ?_⟩
    · rw [challengeToJsonImplBuffer, if_neg (hid challenge hc), if_pos rfl]
    · show bufferSize includeFlag challenge - 1 = _
      rw [bufferSize_eq]
      exact Nat.add_sub_cancel _ _

end

/-- the empty list, with all the memory there is -/
theorem challengesToJson_overrun :
    ¬ ∀ (malloc : Malloc) (includeFlag : Bool) (challenges : List Challenge),
    (∀ challenge ∈ challenges, (0 : UInt8) ∉ challenge.creatorId ∧ (0 : UInt8) ∉ challenge.name ∧
      (0 : UInt8) ∉ challenge.description ∧ (0 : UInt8) ∉ challenge.flag) →
    Fits includeFlag challenges → (∀ size, ∃ buffer, malloc.run size = some buffer) →
      ListWritten malloc includeFlag challenges := by
  intro h
  obtain ⟨s, hs, -⟩ := (h .zeroed true [] (List.forall_mem_nil _) ⟨List.forall_mem_nil _, by decide⟩
    (fun size => ⟨_, rfl⟩)).list
  rw [challengesToJsonImplBuffer_nil (fun size => ⟨_, rfl⟩)] at hs
  cases hs

theorem challengesToJson_written_sample :
    ListWritten .zeroed false [⟨-7, ascii "u", ascii "n", [], ascii "f", .web⟩,
      ⟨10, [], [], ascii "d", [], .crypto⟩] ↔
      [(⟨-7, ascii "u", ascii "n", [], ascii "f", .web⟩ : Challenge),
        ⟨10, [], [], ascii "d", [], .crypto⟩] ≠ [] ∧
        ∀ challenge ∈ [(⟨-7, ascii "u", ascii "n", [], ascii "f", .web⟩ : Challenge),
          ⟨10, [], [], ascii "d", [], .crypto⟩],
          challenge.id ≠ INT_MIN :=
  challengesToJson_written_iff (by decide) ⟨by decide +kernel, by decide +kernel⟩
    (fun size => ⟨_, rfl⟩)

end App

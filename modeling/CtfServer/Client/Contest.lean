import CtfServer.App.Contest
import CtfServer.App.Gate
import CtfServer.App.Stories
import CtfServer.Lib.JsString

/-!
# The start of the contest

`contestState` (contest.ts) and `handle_get_challenges_1` read the same setting, each in its own
way: a pattern and `Date.parse` here, `contest_time_parse` there.

* `contestState`        what the page makes of the setting;
* `matchesSetting`      the pattern, and `matchesSetting_text`: the texts of all moments match it;
* `contest_agrees`      **the page opens exactly when the server does**.
-/

set_option linter.unusedVariables false
set_option linter.unusedSimpArgs false

namespace Client

open App Contest
open JsString (ofAscii ofAscii_append ofAscii_length unit_toNat)

/-! ## the pattern -/

/-- `\d` -/
def isDigitUnit (u : UInt16) : Bool := 48 ≤ u.toNat && u.toNat ≤ 57

/-- the characters of a pattern from end to end; `d` stands for `\d` -/
def matchesAll : List Char → JsString → Bool
  | [], [] => true
  | c :: cs, u :: us =>
    (if c = 'd' then isDigitUnit u else decide (u.toNat = c.val.toNat)) && matchesAll cs us
  | _, _ => false

/-- what is behind `(?:\.\d+)?` -/
def skipFraction : JsString → JsString
  | u :: v :: rest =>
    if u.toNat = 46 ∧ isDigitUnit v then rest.dropWhile isDigitUnit else u :: v :: rest
  | value => value

/-- `(?:Z|[+-]\d{2}:\d{2})$` -/
def matchesZone (value : JsString) : Bool :=
  matchesAll ['Z'] value || matchesAll ['+', 'd', 'd', ':', 'd', 'd'] value ||
    matchesAll ['-', 'd', 'd', ':', 'd', 'd'] value

/-- `\d{4}-\d{2}-\d{2}T\d{2}:\d{2}:\d{2}` -/
def dateTime : List Char :=
  ['d', 'd', 'd', 'd', '-', 'd', 'd', '-', 'd', 'd', 'T', 'd', 'd', ':', 'd', 'd', ':', 'd', 'd']

/-- the regular expression of `contestState` -/
def matchesSetting (value : JsString) : Bool :=
  matchesAll dateTime (value.take 19) && matchesZone (skipFraction (value.drop 19))

/-! ## the state -/

structure ContestState where
  started : Bool
  notice : String
  deriving DecidableEq, Repr

/-- `contestState`; `dateParse` is `Date.parse` with `none` for `NaN`, `localeTime` the rendering of
an instant -/
def contestState (dateParse : JsString → Option Int) (localeTime : Int → String)
    (value : Option JsString) (now : Int) :
    ContestState :=
  match value with
  | none => { started := true, notice := "" }
  | some value =>
    if JsString.trim value = [] then { started := true, notice := "" }
    else
      match dateParse value with
      | none => { started := false, notice := "開始日時の設定を確認中です。" }
      | some start =>
        if matchesSetting value then
          { started := decide (start ≤ now), notice := "コンテスト開始前です。開始日時: " ++ localeTime start }
        else { started := false, notice := "開始日時の設定を確認中です。" }

/-! ## moments match the pattern -/

theorem matchesAll_append {p : List Char} {s : JsString} (h : matchesAll p s = true) (q : List Char)
    (t : JsString) :
    matchesAll (p ++ q) (s ++ t) = matchesAll q t := by
  induction p generalizing s with
  | nil =>
    cases s with
    | nil => rfl
    | cons u s => cases h
  | cons c p ih =>
    cases s with
    | nil => cases h
    | cons u s =>
      rw [matchesAll, Bool.and_eq_true] at h
      rw [List.cons_append, List.cons_append, matchesAll, h.1, Bool.true_and]
      exact ih h.2

/-- a number of a fixed width -/
theorem matchesAll_fixed (k n : Nat) :
    matchesAll (List.replicate k 'd') (ofAscii (Decimal.fixed k n)) = true := by
  have hall : ∀ (l : Bytes), (∀ c ∈ l, Decimal.isDigit c = true) →
    matchesAll (List.replicate l.length 'd') (ofAscii l) = true := by
    intro l
    induction l with
    | nil => exact fun _ => rfl
    | cons c l ih =>
      intro hl
      obtain ⟨hc, hl⟩ := List.forall_mem_cons.mp hl
      show ((if 'd' = 'd' then isDigitUnit (UInt16.ofNat c.toNat) else _) && matchesAll _
        (ofAscii l)) = true
      rw [if_pos rfl, ih hl, Bool.and_true]
      unfold isDigitUnit
      rw [unit_toNat]
      simpa using (Decimal.isDigit_iff c).mp hc
  have h := hall _ (Decimal.fixed_isDigit k n)
  rwa [Decimal.fixed_length] at h

/-- the text of a zone -/
theorem matchesZone_text (zone : Zone) : matchesZone (skipFraction (ofAscii zone.text)) = true := by
  cases zone with
  | utc => exact (show matchesZone (skipFraction (ofAscii (ascii "Z"))) = true by decide)
  | offset west hour minute hh hm =>
    have hdigits : matchesAll ['d', 'd', ':', 'd', 'd']
        (ofAscii (Decimal.fixed 2 hour) ++ (ofAscii [58] ++ ofAscii (Decimal.fixed 2 minute))) =
        true := by
      have h1 := matchesAll_append (matchesAll_fixed 2 hour) [':', 'd', 'd']
        (ofAscii [58] ++ ofAscii (Decimal.fixed 2 minute))
      have h2 := matchesAll_append
        (show matchesAll [':'] (ofAscii [58]) = true by decide) ['d', 'd']
        (ofAscii (Decimal.fixed 2 minute))
      exact h1.trans (h2.trans (matchesAll_fixed 2 minute))
    rw [Zone.text_offset, ofAscii_append, ofAscii_append, ofAscii_append]
    generalize ofAscii (Decimal.fixed 2 hour) ++ (ofAscii [58] ++ ofAscii (Decimal.fixed 2 minute))
      = rest at hdigits
    have hskip : ∀ u : UInt16, u.toNat ≠ 46 → skipFraction (u :: rest) = u :: rest := by
      intro u hu
      cases rest with
      | nil => rfl
      | cons v rest => exact if_neg fun h => hu h.1
    unfold matchesZone
    cases west with
    | true =>
      show (_ || matchesAll _ (skipFraction (45 :: rest))) = true
      rw [hskip 45 (by decide), matchesAll, hdigits]
      exact Bool.or_true _
    | false =>
      show (_ || matchesAll _ (skipFraction (43 :: rest)) || _) = true
      rw [hskip 43 (by decide), matchesAll, hdigits]
      exact (congrArg (· || _) (Bool.or_true _)).trans (Bool.true_or _)

/-- the date and the time of day of a moment -/
def localText (m : Moment) : Bytes :=
  Decimal.fixed 4 m.date.year ++ ascii "-" ++ Decimal.fixed 2 m.date.month ++ ascii "-" ++
    Decimal.fixed 2 m.date.day ++ ascii "T" ++ Decimal.fixed 2 m.hour ++ ascii ":" ++
    Decimal.fixed 2 m.minute ++ ascii ":" ++ Decimal.fixed 2 m.second

theorem matchesAll_localText (m : Moment) : matchesAll dateTime (ofAscii (localText m)) = true := by
  have hone : ∀ (c : Char) (b : Bytes), matchesAll [c] (ofAscii b) = true → ∀ q t,
      matchesAll (c :: q) (ofAscii b ++ t) = matchesAll q t := fun c b h q t =>
      matchesAll_append h q t
  have hdash := hone '-' (ascii "-") (by decide)
  have htime := hone 'T' (ascii "T") (by decide)
  have hcolon := hone ':' (ascii ":") (by decide)
  have hpair : ∀ n q t, matchesAll ('d' :: 'd' :: q) (ofAscii (Decimal.fixed 2 n) ++ t) =
    matchesAll q t :=
    fun n q t => matchesAll_append (matchesAll_fixed 2 n) q t
  have hyear : ∀ n q t, matchesAll ('d' :: 'd' :: 'd' :: 'd' :: q)
    (ofAscii (Decimal.fixed 4 n) ++ t) = matchesAll q t :=
    fun n q t => matchesAll_append (matchesAll_fixed 4 n) q t
  have hlast := matchesAll_fixed 2 m.second
  unfold localText dateTime
  simp only [ofAscii_append, List.append_assoc]
  rw [hyear, hdash, hpair, hdash, hpair, htime, hpair, hcolon, hpair, hcolon]
  exact hlast

/-- **the text of a moment matches the pattern** -/
theorem matchesSetting_text (m : Moment) : matchesSetting (ofAscii m.text) = true := by
  have hsplit : ofAscii m.text = ofAscii (localText m) ++ ofAscii m.zone.text := ofAscii_append _ _
  have hlen : (ofAscii (localText m)).length = 19 := by
    unfold localText
    rw [ofAscii_length]
    simp only [List.length_append, Decimal.fixed_length]
    decide
  unfold matchesSetting
  rw [hsplit, List.take_left' hlen, List.drop_left' hlen, matchesAll_localText, matchesZone_text]
  rfl

/-! ## the two readings -/

/-- `Date.parse` gives the milliseconds of a moment -/
def ParsesMoments (dateParse : JsString → Option Int) : Prop :=
  ∀ (m : Moment) (t : Int), m.At t → 0 ≤ t → dateParse (ofAscii m.text) = some (1000 * t)

/-- a setting that the server accepts is empty, or the text of a moment -/
theorem setting_moment {value : Bytes} {start : Int}
    (h : contestTimeParse value = some (true, start)) :
    value = [] ∧ start = 0 ∨ ∃ m : Moment, value = m.text ∧ m.At start ∧ 0 ≤ start := by
  by_cases hne : value = []
  · subst hne
    cases h
    exact .inl ⟨rfl, rfl⟩
  refine .inr ?_
  rcases contestTimeParse_cases hne with hfail | ⟨m, rfl⟩
  · rw [hfail] at h
    cases h
  · rw [contestTimeParse_text, settled] at h
    split at h
    · cases h
    next hsign =>
    cases h
    exact ⟨m, rfl, (m.at_iff _).mpr rfl, by omega⟩

/-- the setting of a moment is not blank -/
theorem trim_text (m : Moment) : JsString.trim (ofAscii m.text) ≠ [] := by
  intro hnil
  have hall := (JsString.trim_eq_nil_iff _).mp hnil
  have hmatch := matchesSetting_text m
  unfold matchesSetting at hmatch
  cases htext : ofAscii m.text with
  | nil =>
    rw [htext] at hmatch
    cases hmatch
  | cons u rest =>
    rw [htext] at hall hmatch
    have hblank := hall u List.mem_cons_self
    have hfirst := ((Bool.and_eq_true _ _).mp hmatch).1
    unfold dateTime at hfirst
    rw [List.take_succ_cons, matchesAll, if_pos rfl] at hfirst
    have hdigit := ((Bool.and_eq_true _ _).mp hfirst).1
    simp only [isDigitUnit, Bool.and_eq_true, decide_eq_true_eq] at hdigit
    simp only [JsString.isBlank, Bool.or_eq_true, Bool.and_eq_true, decide_eq_true_eq,
      beq_iff_eq] at hblank
    omega

/-- what the page makes of a setting that the server accepts -/
theorem contestState_started {dateParse : JsString → Option Int} (hparse : ParsesMoments dateParse)
    (localeTime : Int → String) {value : Bytes} {start : Int}
    (hvalue : contestTimeParse value = some (true, start)) {now : Int} (hnow : 0 ≤ now) :
    0 ≤ start ∧ ((contestState dateParse localeTime (some (ofAscii value)) now).started = true ↔
      start ≤ now / 1000) := by
  rcases setting_moment hvalue with ⟨rfl, rfl⟩ | ⟨m, rfl, hat, hstart⟩
  · refine ⟨Int.le_refl _, fun _ => ?_, fun _ => rfl⟩
    omega
  · refine ⟨hstart, ?_⟩
    unfold contestState
    dsimp only
    rw [if_neg (trim_text m), hparse m start hat hstart]
    dsimp only
    rw [if_pos (matchesSetting_text m), decide_eq_true_eq]
    omega

/-- **The page opens exactly when the server does**: for every setting that the server starts with,
at every instant, either the page says that the contest has not started and the server refuses the
challenges, or the page says that it has, and the server asks for them. -/
theorem contest_agrees {dateParse : JsString → Option Int} (hparse : ParsesMoments dateParse)
    (localeTime : Int → String)
    {value : Bytes} {start : Int} (hvalue : contestTimeParse value = some (true, start))
    {lib : AuthLib} {runtime : Runtime}
    (hruntime : runtime.contestStartAt = start) {request : Request}
    (hmethod : request.method = .get)
    (huri : request.uri = ascii "/challenges") {env : Env} (hmem : env.alloc .context = true)
    (henqueue : env.enqueue = true) {now : Int} (hnow : 0 ≤ now) (hclock : env.now = now / 1000) :
    ((contestState dateParse localeTime (some (ofAscii value)) now).started = false ∧
      (dispatch lib runtime env request).verdict = .respond
      { status := .forbidden, noStore := true } ∧
      ∀ query, .query query ∉ (dispatch lib runtime env request).events) ∨
    ((contestState dateParse localeTime (some (ofAscii value)) now).started = true ∧
      (dispatch lib runtime env request).verdict = .wait ∧
      .query .selectChallengesWithoutFlag ∈ (dispatch lib runtime env request).events) := by
  obtain ⟨hstart, hstarted⟩ := contestState_started hparse localeTime hvalue hnow
  have hroute : findRoute .get (ascii "/challenges") =
    some ⟨.get, ascii "/challenges", [.getChallenges1, .getChallenges2]⟩ := by
    decide +kernel
  have hdispatch : dispatch lib runtime env request =
      handleGetChallenges1 runtime env { request := request, chain :=
        [.getChallenges1, .getChallenges2] } := by
    unfold dispatch Request.route
    rw [hmethod, huri, hroute]
    dsimp only
    rw [if_neg (by rw [hmem]; decide), runStages_plain _ _ _ _ _ _ _ (by decide)]
    rfl
  rw [hdispatch]
  unfold handleGetChallenges1
  by_cases hbefore : start ≤ now / 1000
  · refine .inr ⟨hstarted.mpr hbefore, ?_⟩
    have hopen : ¬ (runtime.contestStartAt ≠ 0 ∧
      (env.now < 0 ∨ env.now < runtime.contestStartAt)) := by
      rw [hruntime, hclock]
      omega
    simp only [hopen, if_false, hasNext_more, not_true_eq_false, Ctx.exec, henqueue, if_true]
    exact ⟨trivial, List.mem_append_right _ List.mem_cons_self⟩
  · refine .inl ⟨Bool.eq_false_iff.mpr fun h => hbefore (hstarted.mp h), ?_⟩
    have hclosed : runtime.contestStartAt ≠ 0 ∧
      (env.now < 0 ∨ env.now < runtime.contestStartAt) := by
      rw [hruntime, hclock]
      omega
    have hpositive : ¬ env.now < 0 := by omega
    rw [if_pos hclosed, if_neg hpositive]
    refine ⟨rfl, fun query hmem => ?_⟩
    simp [Ctx.finish] at hmem

/-- a `Date.parse` that takes what the server takes -/
def dateParseServer (value : JsString) : Option Int :=
  match contestTimeParse (value.map fun u => UInt8.ofNat u.toNat) with
  | some (true, t) => some (1000 * t)
  | _ => none

theorem dateParseServer_parses : ParsesMoments dateParseServer := by
  intro m t hat ht
  have hback : (ofAscii m.text).map (fun u => UInt8.ofNat u.toNat) = m.text := by
    unfold ofAscii
    rw [List.map_map]
    refine (List.map_congr_left fun c _ => ?_).trans (List.map_id _)
    show UInt8.ofNat (UInt16.ofNat c.toNat).toNat = c
    rw [unit_toNat, UInt8.ofNat_toNat]
  unfold dateParseServer
  rw [hback, contestTimeParse_text, ← (m.at_iff t).mp hat, settled, if_neg (by omega)]

def sampleSetting : JsString := ofAscii (ascii "2026-10-01T10:00:00+09:00")

def sampleOpening : Runtime := { sampleRuntime with contestStartAt := 1790816400 }

def sampleChallenges : Request := { method := .get, uri := ascii "/challenges" }

/-- a millisecond before the start -/
theorem contest_agrees_sample :
    (contestState dateParseServer (fun _ => "") (some sampleSetting) 1790816399999).started =
    false ∧
      (dispatch sampleLib sampleOpening (sampleEnv 1790816399) sampleChallenges).verdict =
        .respond { status := .forbidden, noStore := true } := by
  have hvalue : contestTimeParse (ascii "2026-10-01T10:00:00+09:00") =
    some (true, 1790816400) := by decide +kernel
  have hruntime : sampleOpening.contestStartAt = 1790816400 := rfl
  have hmethod : sampleChallenges.method = .get := rfl
  have hmem : (sampleEnv 1790816399).alloc .context = true := rfl
  have hclock : (sampleEnv 1790816399).now = 1790816399999 / 1000 := by decide
  rcases contest_agrees dateParseServer_parses (fun _ => "") hvalue hruntime hmethod rfl hmem rfl
      (by decide) hclock with ⟨hstarted, hrefused, -⟩ | ⟨hstarted, -, -⟩
  · exact ⟨hstarted, hrefused⟩
  · exact absurd hstarted (by decide +kernel)

end Client

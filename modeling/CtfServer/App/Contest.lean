import CtfServer.Lib.Calendar
import CtfServer.Lib.Decimal
import Mathlib.Tactic.IntervalCases
import Mathlib.Tactic.Positivity

/-!
# The times of the contest

`contest_time_parse` on the string of a setting: its octets before the terminator, the
terminator itself readable, `none` for a read behind it.

* `readDigits`, `contestTimeParse`   the parser, with every octet it reads;
* `Moment`                           a point in time as ISO 8601 writes it: a date that exists,
                                     a time of day and a zone;
* `Moment.At`                        the seconds from 1970-01-01T00:00:00Z to it;
* `contestTimeParse_instant`         **the parser accepts the texts of the moments that are not
                                     before the epoch, and returns their seconds**.
-/

set_option linter.unusedVariables false

namespace Contest

open Calendar (Date)

/-! ## the parser -/

/-- `value[i]`: an octet of the string or its terminator -/
def charAt (value : Bytes) (i : Nat) : Option UInt8 := (value ++ [0])[i]?

/-- the loop of `read_digits`; a `char` above 127 is negative, so below `'0'` -/
def readDigitsFrom (value : Bytes) (i : Nat) (result : Int) : Nat → Option Int
  | 0 => some result
  | n + 1 => do
    let c ← charAt value i
    if c < 48 ∨ 57 < c then some (-1)
    else readDigitsFrom value (i + 1) (result * 10 + c.toNat - 48) n

/-- `read_digits(value + i, length)` -/
def readDigits (value : Bytes) (i length : Nat) : Option Int := readDigitsFrom value i 0 length

/-- the separators of a date and time with their places -/
def SEPARATORS : List (Nat × UInt8) := [(4, 45), (7, 45), (10, 84), (13, 58), (16, 58)]

/-- none of the separators is missing; `||` reads from the left, as far as they are right -/
def separated (value : Bytes) : List (Nat × UInt8) → Option Bool
  | [] => some true
  | (i, c) :: rest => do
    if (← charAt value i) ≠ c then return false
    separated value rest

/-- the seconds of the zone; `some none` is the failure of the source -/
def zoneOffset (value : Bytes) : Option (Option Int) := do
  if value.length = 20 then
    if (← charAt value 19) ≠ 90 then return none
    return some 0
  else
    let offsetHour ← readDigits value 20 2
    let offsetMinute ← readDigits value 23 2
    let sign ← charAt value 19
    if sign ≠ 43 ∧ sign ≠ 45 then return none
    if (← charAt value 22) ≠ 58 then return none
    if offsetHour < 0 ∨ 23 < offsetHour ∨ offsetMinute < 0 ∨ 59 < offsetMinute then return none
    let offset := (offsetHour * 60 + offsetMinute) * 60
    return some (if sign = 45 then -offset else offset)

def MONTH_DAYS : List Int := [31, 28, 31, 30, 31, 30, 31, 31, 30, 31, 30, 31]

/-- `month_days[month - 1] + (month == 2 && leap)` -/
def monthDaysAt (leap : Bool) (month : Int) : Option Int := do
  let days ← MONTH_DAYS[(month - 1).toNat]?
  return days + if month = 2 ∧ leap = true then 1 else 0

/-- the days after `n` turns of the loop over the months -/
def addMonths (leap : Bool) (days : Int) : Nat → Option Int
  | 0 => some days
  | n + 1 => do
    let sum ← addMonths leap days n
    let month ← monthDaysAt leap (n + 1)
    return sum + month

/-- the function from the check of the ranges on: the result and `*timestamp` -/
def timestampOf (year month day hour minute second offset : Int) : Option (Bool × Int) := do
  if year < 1970 ∨ month < 1 ∨ 12 < month ∨ day < 1 ∨ hour < 0 ∨ 23 < hour ∨ minute < 0 ∨
    59 < minute ∨
      second < 0 ∨ 59 < second then
    return (false, 0)
  let leap := year.tmod 4 == 0 && (year.tmod 100 != 0 || year.tmod 400 == 0)
  if day > (← monthDaysAt leap month) then return (false, 0)
  let days := (year - 1970) * 365 + (year - 1).tdiv 4 - (1969 : Int).tdiv 4 - (year - 1).tdiv 100 +
    (1969 : Int).tdiv 100 + (year - 1).tdiv 400 - (1969 : Int).tdiv 400
  let days ← addMonths leap days (month - 1).toNat
  let parsed := (days + day - 1) * 86400 + hour * 3600 + minute * 60 + second - offset
  if parsed < 0 then return (false, 0)
  return (true, parsed)

/-- the result and `*timestamp` -/
def contestTimeParse (value : Bytes) : Option (Bool × Int) := do
  if value = [] then return (true, 0)
  if value.length ≠ 20 ∧ value.length ≠ 25 then return (false, 0)
  if (← separated value SEPARATORS) = false then return (false, 0)
  let year ← readDigits value 0 4
  let month ← readDigits value 5 2
  let day ← readDigits value 8 2
  let hour ← readDigits value 11 2
  let minute ← readDigits value 14 2
  let second ← readDigits value 17 2
  match ← zoneOffset value with
  | none => return (false, 0)
  | some offset => timestampOf year month day hour minute second offset

/-! ## moments -/

/-- `Z`, or how far the local clock is from it -/
inductive Zone where
  | utc
  | offset (west : Bool) (hour minute : Nat) (hour_le : hour ≤ 23) (minute_le : minute ≤ 59)

/-- the seconds the local clock is ahead -/
def Zone.seconds : Zone → Int
  | .utc => 0
  | .offset west hour minute _ _ =>
    if west then -((hour * 3600 + minute * 60 : Nat) : Int) else
      ((hour * 3600 + minute * 60 : Nat) : Int)

def Zone.text : Zone → Bytes
  | .utc => ascii "Z"
  | .offset west hour minute _ _ =>
    ascii (if west then "-" else "+") ++ Decimal.fixed 2 hour ++ ascii ":" ++ Decimal.fixed 2 minute

/-- a local date and time of day with its zone -/
structure Moment where
  date : Date
  hour : Nat
  minute : Nat
  second : Nat
  zone : Zone
  year_ge : 1970 ≤ date.year
  year_le : date.year ≤ 9999
  hour_le : hour ≤ 23
  minute_le : minute ≤ 59
  second_le : second ≤ 59

namespace Moment

/-- `YYYY-MM-DDThh:mm:ss` and the zone -/
def text (m : Moment) : Bytes :=
  Decimal.fixed 4 m.date.year ++ ascii "-" ++ Decimal.fixed 2 m.date.month ++ ascii "-" ++
    Decimal.fixed 2 m.date.day ++ ascii "T" ++ Decimal.fixed 2 m.hour ++ ascii ":" ++
    Decimal.fixed 2 m.minute ++ ascii ":" ++ Decimal.fixed 2 m.second ++ m.zone.text

/-- its seconds from 1970-01-01T00:00:00Z: the days that pass until its date, the time of day,
less what the local clock is ahead -/
def At (m : Moment) (t : Int) : Prop :=
  ∃ days : Nat, Date.next^[days] Date.epoch = m.date ∧
    t = days * 86400 + m.hour * 3600 + m.minute * 60 + m.second - m.zone.seconds

def seconds (m : Moment) : Int :=
  m.date.number * 86400 + m.hour * 3600 + m.minute * 60 + m.second - m.zone.seconds

theorem at_iff (m : Moment) (t : Int) : m.At t ↔ t = m.seconds := by
  unfold At seconds
  constructor
  · rintro ⟨days, hdays, rfl⟩
    rw [(Date.next_number m.date m.year_ge days).mp hdays]
  · rintro rfl
    exact ⟨_, (Date.next_number m.date m.year_ge _).mpr rfl, rfl⟩

end Moment

/-! ## reading digits -/

theorem charAt_of_lt {value : Bytes} {i : Nat} (h : i < value.length) :
    charAt value i = some value[i] := by
  unfold charAt
  rw [List.getElem?_append_left h, List.getElem?_eq_getElem h]

theorem slice_succ {value : Bytes} {i n : Nat} (h : i < value.length) :
    Bytes.slice value i (n + 1) = value[i] :: Bytes.slice value (i + 1) n := by
  unfold Bytes.slice
  rw [List.drop_eq_getElem_cons h, List.take_succ_cons]

theorem slice_length {value : Bytes} {i n : Nat} (h : i + n ≤ value.length) :
    (Bytes.slice value i n).length = n := by
  unfold Bytes.slice
  rw [List.length_take, List.length_drop]
  omega

/-- the number of a digit string, `-1` for any other -/
def number (l : Bytes) : Int := if l.all Decimal.isDigit = true then Decimal.value l else -1

theorem number_fixed {k n : Nat} (h : n < 10 ^ k) : number (Decimal.fixed k n) = n := by
  unfold number
  rw [if_pos (List.all_eq_true.mpr (Decimal.fixed_isDigit k n)), Decimal.value_fixed h]

theorem number_lt (l : Bytes) : number l < 10 ^ l.length := by
  unfold number
  split
  · next hd => exact_mod_cast Decimal.value_lt l (List.all_eq_true.mp hd)
  · have : (0 : Int) < 10 ^ l.length := by positivity
    omega

/-- what a number that is no failure was written as -/
theorem fixed_of_number {l : Bytes} {n : Nat} (h : number l = n) :
    l = Decimal.fixed l.length n := by
  unfold number at h
  by_cases hd : l.all Decimal.isDigit = true
  · rw [if_pos hd] at h
    have hvalue : Decimal.value l = n := by exact_mod_cast h
    rw [← hvalue, Decimal.fixed_value l (List.all_eq_true.mp hd)]
  · rw [if_neg hd] at h
    omega

theorem readDigitsFrom_slice {value : Bytes} {i n : Nat} (r : Nat) (h : i + n ≤ value.length) :
    readDigitsFrom value i r n =
      some (if (Bytes.slice value i n).all Decimal.isDigit = true then
        (Decimal.valueFrom r (Bytes.slice value i n) : Int) else -1) := by
  induction n generalizing i r with
  | zero =>
    rw [Bytes.slice_zero]
    rfl
  | succ n ih =>
    have hi : i < value.length := by omega
    have hchar : (value[i] < 48 ∨ 57 < value[i]) ↔ ¬ Decimal.isDigit value[i] = true := by
      rw [Decimal.isDigit_iff, UInt8.lt_iff_toNat_lt, UInt8.lt_iff_toNat_lt]
      show value[i].toNat < 48 ∨ 57 < value[i].toNat ↔ _
      omega
    rw [slice_succ hi, readDigitsFrom, charAt_of_lt hi]
    show (if value[i] < 48 ∨ 57 < value[i] then some (-1)
      else readDigitsFrom value (i + 1) ((r : Int) * 10 + value[i].toNat - 48) n) = _
    by_cases hd : Decimal.isDigit value[i] = true
    · have hbyte := (Decimal.isDigit_iff _).mp hd
      have hdigit : (r : Int) * 10 + value[i].toNat - 48 =
        ((r * 10 + Decimal.digit value[i] : Nat) : Int) := by
        unfold Decimal.digit
        omega
      rw [if_neg (fun hc => hchar.mp hc hd), hdigit, ih _ (by omega), List.all_cons, hd,
        Bool.true_and,
        Decimal.valueFrom_cons]
    · rw [if_pos (hchar.mpr hd), List.all_cons, Bool.eq_false_iff.mpr hd, Bool.false_and]
      rfl

theorem readDigits_slice {value : Bytes} {i n : Nat} (h : i + n ≤ value.length) :
    readDigits value i n = some (number (Bytes.slice value i n)) :=
  readDigitsFrom_slice 0 h

/-! ## separators and zones -/

theorem slice_one_iff {value : Bytes} {i : Nat} (h : i < value.length) (c : UInt8) :
    Bytes.slice value i 1 = [c] ↔ value[i] = c := by
  rw [slice_succ h, Bytes.slice_zero]
  simp

theorem separated_spec {value : Bytes} (l : List (Nat × UInt8)) (h : ∀ p ∈ l, p.1 < value.length) :
    ∃ b, separated value l = some b ∧ (b = true ↔ ∀ p ∈ l, Bytes.slice value p.1 1 = [p.2]) := by
  induction l with
  | nil => exact ⟨true, rfl, fun _ => List.forall_mem_nil _, fun _ => rfl⟩
  | cons p rest ih =>
    obtain ⟨i, c⟩ := p
    have hi : i < value.length := h (i, c) List.mem_cons_self
    obtain ⟨b, hb, hiff⟩ := ih (fun q hq => h q (List.mem_cons_of_mem _ hq))
    rw [List.forall_mem_cons, slice_one_iff hi]
    by_cases hc : value[i] = c
    · refine ⟨b, ?_, hiff.trans ⟨fun hr => ⟨hc, hr⟩, fun hr => hr.2⟩⟩
      rw [separated, charAt_of_lt hi]
      show (if value[i] ≠ c then some false else separated value rest) = some b
      rw [if_neg (fun hne => hne hc), hb]
    · refine ⟨false, ?_, ⟨fun hf => absurd hf Bool.false_ne_true, fun hr => absurd hr.1 hc⟩⟩
      rw [separated, charAt_of_lt hi]
      show (if value[i] ≠ c then some false else separated value rest) = some false
      rw [if_pos hc]

theorem drop_slice (value : Bytes) (i n : Nat) :
    value.drop i = Bytes.slice value i n ++ value.drop (i + n) := by
  unfold Bytes.slice
  rw [← List.drop_drop, List.take_append_drop]

/-- a number in its range is that of a numeral of two digits -/
theorem number_range (max : Int) {l : Bytes} (hl : l.length = 2)
    (h : ¬ (number l < 0 ∨ max < number l)) :
    ∃ n : Nat, number l = n ∧ (n : Int) ≤ max ∧ l = Decimal.fixed 2 n := by
  obtain ⟨n, hn⟩ : ∃ n : Nat, number l = n := ⟨(number l).toNat, by omega⟩
  refine ⟨n, hn, by omega, ?_⟩
  have := fixed_of_number hn
  rwa [hl] at this

theorem Zone.text_offset (west : Bool) (hour minute : Nat) (hh : hour ≤ 23) (hm : minute ≤ 59) :
    (Zone.offset west hour minute hh hm).text =
      [if west then 45 else 43] ++ (Decimal.fixed 2 hour ++ ([58] ++ Decimal.fixed 2 minute)) := by
  show ascii (if west then "-" else "+") ++ Decimal.fixed 2 hour ++ ascii ":" ++
    Decimal.fixed 2 minute = _
  rw [List.append_assoc, List.append_assoc]
  cases west <;> rfl

theorem Zone.text_offset_length (west : Bool) (hour minute : Nat) (hh : hour ≤ 23)
    (hm : minute ≤ 59) :
    (Zone.offset west hour minute hh hm).text.length = 6 := by
  simp only [Zone.text_offset, List.length_append, Decimal.fixed_length, List.length_singleton]

/-- `Z` at the end of a string of 20 octets -/
theorem zoneOffset_utc {value : Bytes} (h : value.length = 20) :
    ∃ r, zoneOffset value = some r ∧ ∀ t, r = some t ↔ ∃ z : Zone, value.drop 19 = z.text ∧
    t = z.seconds := by
  have hi : 19 < value.length := by omega
  have hdrop : value.drop 19 = [value[19]] := by
    rw [List.drop_eq_getElem_cons hi, List.drop_eq_nil_of_le (by omega)]
  have hz : ∀ t, (∃ z : Zone, value.drop 19 = z.text ∧ t = z.seconds) ↔ value[19] = 90 ∧ t = 0 := by
    intro t
    rw [hdrop]
    constructor
    · rintro ⟨z, hz, rfl⟩
      cases z with
      | utc => exact ⟨List.head_eq_of_cons_eq hz, rfl⟩
      | offset west hour minute hh hm =>
        have hlen := congrArg List.length hz
        rw [Zone.text_offset_length] at hlen
        cases hlen
    · rintro ⟨hc, rfl⟩
      rw [hc]
      exact ⟨.utc, rfl, rfl⟩
  unfold zoneOffset
  rw [if_pos h, charAt_of_lt hi]
  show ∃ r, (if value[19] ≠ 90 then some none else some (some 0)) = some r ∧ _
  by_cases hc : value[19] = 90
  · rw [if_neg (fun hne => hne hc)]
    refine ⟨_, rfl, fun t => ?_⟩
    rw [hz t, Option.some_inj]
    exact ⟨fun ht => ⟨hc, ht.symm⟩, fun ht => ht.2.symm⟩
  · rw [if_pos hc]
    refine ⟨_, rfl, fun t => ?_⟩
    rw [hz t]
    exact ⟨fun ht => (nomatch ht), fun ht => absurd ht.1 hc⟩

/-- what the zone comes to once its octets and numbers are read -/
def offsetOf (sign colon : UInt8) (offsetHour offsetMinute : Int) : Option Int :=
  if sign ≠ 43 ∧ sign ≠ 45 then none
  else if colon ≠ 58 then none
  else if offsetHour < 0 ∨ 23 < offsetHour ∨ offsetMinute < 0 ∨ 59 < offsetMinute then none
  else some (if sign = 45 then -((offsetHour * 60 + offsetMinute) * 60) else
    (offsetHour * 60 + offsetMinute) * 60)

theorem zoneOffset_eval {value : Bytes} (h : value.length = 25) (h19 : 19 < value.length)
    (h22 : 22 < value.length) :
    zoneOffset value =
      some (offsetOf value[19] value[22] (number (Bytes.slice value 20 2))
        (number (Bytes.slice value 23 2))) := by
  unfold zoneOffset offsetOf
  rw [if_neg (by omega), readDigits_slice (by omega), readDigits_slice (by omega), charAt_of_lt h19,
    charAt_of_lt h22]
  simp only [Option.bind_eq_bind, Option.bind_some, Option.pure_def]
  repeat' split
  all_goals rfl

theorem offsetOf_zone (west : Bool) (hour minute : Nat) (hh : hour ≤ 23) (hm : minute ≤ 59) :
    offsetOf (if west then 45 else 43) 58 hour minute =
    some (Zone.offset west hour minute hh hm).seconds := by
  have hseconds : ((hour : Int) * 60 + minute) * 60 =
    ((hour * 3600 + minute * 60 : Nat) : Int) := by omega
  unfold offsetOf
  rw [if_neg (by cases west <;> decide), if_neg (by decide), if_neg (by omega), hseconds]
  cases west <;> rfl

/-- an offset that is accepted was written as a zone -/
theorem offsetOf_some {sign colon : UInt8} {hourText minuteText : Bytes} {t : Int}
    (hh : hourText.length = 2)
    (hm : minuteText.length = 2)
    (h : offsetOf sign colon (number hourText) (number minuteText) = some t) :
    ∃ z : Zone, [sign] ++ (hourText ++ ([colon] ++ minuteText)) = z.text ∧ t = z.seconds := by
  by_cases hsign : sign ≠ 43 ∧ sign ≠ 45
  · rw [offsetOf, if_pos hsign] at h
    cases h
  by_cases hcolon : colon ≠ 58
  · rw [offsetOf, if_neg hsign, if_pos hcolon] at h
    cases h
  by_cases hrange : number hourText < 0 ∨ 23 < number hourText ∨ number minuteText < 0 ∨
    59 < number minuteText
  · rw [offsetOf, if_neg hsign, if_neg hcolon, if_pos hrange] at h
    cases h
  obtain ⟨hour, hhour, hhmax, hhtext⟩ := number_range 23 hh (by omega)
  obtain ⟨minute, hminute, hmmax, hmtext⟩ := number_range 59 hm (by omega)
  obtain ⟨west, hwest⟩ : ∃ west : Bool, sign = if west then 45 else 43 := by
    by_cases h45 : sign = 45
    · exact ⟨true, h45⟩
    · exact ⟨false, by_contra fun h43 => hsign ⟨h43, h45⟩⟩
  have hcolon58 : colon = 58 := by_contra hcolon
  have hzone := offsetOf_zone west hour minute (by omega) (by omega)
  rw [hwest, hcolon58, hhour, hminute, hzone] at h
  refine ⟨.offset west hour minute (by omega) (by omega), ?_, (Option.some.inj h).symm⟩
  rw [Zone.text_offset, hwest, hcolon58, ← hhtext, ← hmtext]

/-- a sign, an hour and a minute at the end of a string of 25 octets -/
theorem zoneOffset_offset {value : Bytes} (h : value.length = 25) :
    ∃ r, zoneOffset value = some r ∧ ∀ t, r = some t ↔ ∃ z : Zone, value.drop 19 = z.text ∧
    t = z.seconds := by
  have h19 : 19 < value.length := by omega
  have h22 : 22 < value.length := by omega
  have hl20 : (Bytes.slice value 20 2).length = 2 := slice_length (by omega)
  have hl23 : (Bytes.slice value 23 2).length = 2 := slice_length (by omega)
  have hdrop : value.drop 19 = [value[19]] ++
    (Bytes.slice value 20 2 ++ ([value[22]] ++ Bytes.slice value 23 2)) := by
    rw [drop_slice value 19 1, drop_slice value 20 2, drop_slice value 22 1, drop_slice value 23 2,
      List.drop_eq_nil_of_le (show value.length ≤ 23 + 2 by omega), List.append_nil,
      (slice_one_iff h19 _).mpr rfl,
      (slice_one_iff h22 _).mpr rfl]
  refine ⟨_, zoneOffset_eval h h19 h22, fun t => ⟨fun ht => ?_, ?_⟩⟩
  · rw [hdrop]
    exact offsetOf_some hl20 hl23 ht
  · rintro ⟨z, hz, rfl⟩
    cases z with
    | utc =>
      have hlen := congrArg List.length hz
      rw [List.length_drop, h] at hlen
      cases hlen
    | offset west hour minute hh hm =>
      rw [hdrop, Zone.text_offset] at hz
      obtain ⟨hsign, hz⟩ := List.append_inj hz rfl
      obtain ⟨hhour, hz⟩ := List.append_inj hz (by rw [hl20, Decimal.fixed_length])
      obtain ⟨hcolon, hminute⟩ := List.append_inj hz rfl
      rw [hhour, hminute, number_fixed (by omega), number_fixed (by omega),
        List.singleton_inj.mp hsign,
        List.singleton_inj.mp hcolon, offsetOf_zone west hour minute hh hm]

/-- the zone is read as what its text says -/
theorem zoneOffset_spec {value : Bytes} (h : value.length = 20 ∨ value.length = 25) :
    ∃ r, zoneOffset value = some r ∧ ∀ t, r = some t ↔ ∃ z : Zone, value.drop 19 = z.text ∧
    t = z.seconds :=
  h.elim zoneOffset_utc zoneOffset_offset

/-! ## the calendar of the parser -/

theorem leap_eq (year : Nat) :
    ((year : Int).tmod 4 == 0 && ((year : Int).tmod 100 != 0 || (year : Int).tmod 400 == 0)) =
      Calendar.isLeap year := by
  have hyear : (0 : Int) ≤ year := Int.natCast_nonneg year
  rw [Bool.eq_iff_iff, Calendar.isLeap_iff, Int.tmod_eq_emod_of_nonneg hyear,
    Int.tmod_eq_emod_of_nonneg hyear,
    Int.tmod_eq_emod_of_nonneg hyear]
  simp only [Bool.and_eq_true, Bool.or_eq_true, beq_iff_eq, bne_iff_ne, ne_eq]
  omega

theorem monthDaysAt_eq (year : Nat) {month : Nat} (h1 : 1 ≤ month) (h12 : month ≤ 12) :
    monthDaysAt (Calendar.isLeap year) month = some (Calendar.monthLength year month : Int) := by
  unfold monthDaysAt Calendar.monthLength
  generalize Calendar.isLeap year = leap
  interval_cases month <;> cases leap <;> rfl

theorem addMonths_eq (year : Nat) (days : Int) {n : Nat} (h : n ≤ 12) :
    addMonths (Calendar.isLeap year) days n = some (days + Calendar.monthDays year n) := by
  induction n with
  | zero => simp [addMonths, Calendar.monthDays]
  | succ n ih =>
    have hmonth := monthDaysAt_eq year (show 1 ≤ n + 1 by omega) h
    rw [addMonths, ih (by omega), Calendar.monthDays]
    show (monthDaysAt (Calendar.isLeap year) ((n : Int) + 1) >>= fun month =>
      some (days + Calendar.monthDays year n + month)) = _
    rw [show ((n : Int) + 1) = ((n + 1 : Nat) : Int) by omega, hmonth]
    show some _ = some _
    rw [Nat.cast_add]
    congr 1
    omega

/-- the days of the whole years, as the source adds them up -/
theorem yearDays_eq {year : Nat} (h : 1970 ≤ year) :
    ((year : Int) - 1970) * 365 + ((year : Int) - 1).tdiv 4 - (1969 : Int).tdiv 4
    - ((year : Int) - 1).tdiv 100 +
      (1969 : Int).tdiv 100 + ((year : Int) - 1).tdiv 400 - (1969 : Int).tdiv 400 =
      (Calendar.yearDays (year - 1970) : Int) := by
  have hclosed := Calendar.yearDays_closed (year - 1970)
  have hyear : (0 : Int) ≤ (year : Int) - 1 := by omega
  rw [show 1969 + (year - 1970) = year - 1 by omega] at hclosed
  rw [Int.tdiv_eq_ediv_of_nonneg hyear, Int.tdiv_eq_ediv_of_nonneg hyear,
    Int.tdiv_eq_ediv_of_nonneg hyear,
    show (year : Int) - 1 = ((year - 1 : Nat) : Int) by omega, show (year : Int) - 1970 =
    ((year - 1970 : Nat) : Int) by omega]
  have h4 : ((year - 1 : Nat) : Int) / 4 = ((year - 1) / 4 : Nat) := rfl
  have h100 : ((year - 1 : Nat) : Int) / 100 = ((year - 1) / 100 : Nat) := rfl
  have h400 : ((year - 1 : Nat) : Int) / 400 = ((year - 1) / 400 : Nat) := rfl
  rw [h4, h100, h400]
  clear h4 h100 h400
  generalize (year - 1) / 4 = q4 at *
  generalize (year - 1) / 100 = q100 at *
  generalize (year - 1) / 400 = q400 at *
  generalize Calendar.yearDays (year - 1970) = days at *
  generalize year - 1970 = years at *
  have h1 : (1969 : Int).tdiv 4 = 492 := rfl
  have h2 : (1969 : Int).tdiv 100 = 19 := rfl
  have h3 : (1969 : Int).tdiv 400 = 4 := rfl
  omega

/-- the result for an instant: those before the epoch are refused -/
def settled (t : Int) : Bool × Int := if t < 0 then (false, 0) else (true, t)

theorem timestampOf_date (d : Date) (hyear : 1970 ≤ d.year) {hour minute second : Nat}
    (hh : hour ≤ 23) (hm : minute ≤ 59) (hs : second ≤ 59) (offset : Int) :
    timestampOf d.year d.month d.day hour minute second offset =
      some (settled (d.number * 86400 + hour * 3600 + minute * 60 + second - offset)) := by
  have hmonth := d.month_pos
  have htwelve := d.month_le
  have hpos := d.day_pos
  have hlast := d.day_le
  have hloop : ((d.month : Int) - 1).toNat = d.month - 1 := by omega
  unfold timestampOf
  rw [if_neg (by omega), leap_eq]
  dsimp only [Option.bind_eq_bind, Option.pure_def]
  rw [monthDaysAt_eq d.year hmonth htwelve, Option.bind_some]
  rw [if_neg (by omega), yearDays_eq hyear, hloop, addMonths_eq d.year _ (by omega)]
  have hsum : ((Calendar.yearDays (d.year - 1970) : Int) + Calendar.monthDays d.year (d.month - 1)
    + d.day - 1) =
      (d.number : Int) := by
    unfold Date.number
    generalize Calendar.yearDays (d.year - 1970) = days
    generalize Calendar.monthDays d.year (d.month - 1) = months
    omega
  rw [Option.bind_some, hsum]
  unfold settled
  split <;> rfl

/-- numbers that are refused, or those of a date and a time of day -/
theorem timestampOf_cases (year month day hour minute second offset : Int) :
    timestampOf year month day hour minute second offset = some (false, 0) ∨
      ∃ (d : Date) (h m s : Nat), 1970 ≤ d.year ∧ h ≤ 23 ∧ m ≤ 59 ∧ s ≤ 59 ∧ year = d.year ∧
      month = d.month ∧
        day = d.day ∧ hour = h ∧ minute = m ∧ second = s := by
  by_cases hrange : year < 1970 ∨ month < 1 ∨ 12 < month ∨ day < 1 ∨ hour < 0 ∨
    23 < hour ∨ minute < 0 ∨
      59 < minute ∨ second < 0 ∨ 59 < second
  · left
    rw [timestampOf, if_pos hrange]
    rfl
  obtain ⟨y, rfl⟩ : ∃ y : Nat, year = y := ⟨year.toNat, by omega⟩
  obtain ⟨mo, rfl⟩ : ∃ mo : Nat, month = mo := ⟨month.toNat, by omega⟩
  obtain ⟨da, rfl⟩ : ∃ da : Nat, day = da := ⟨day.toNat, by omega⟩
  by_cases hday : da ≤ Calendar.monthLength y mo
  · exact Or.inr ⟨⟨y, mo, da, by omega, by omega, by omega, hday⟩, hour.toNat, minute.toNat,
      second.toNat,
      by show 1970 ≤ y; omega, by omega, by omega, by omega, rfl, rfl,
      rfl, by omega, by omega, by omega⟩
  · left
    unfold timestampOf
    rw [if_neg hrange, leap_eq]
    dsimp only [Option.bind_eq_bind, Option.pure_def]
    rw [monthDaysAt_eq y (by omega) (by omega), Option.bind_some, if_pos (by omega)]

/-! ## the text of a moment -/

/-- the places of the parts of a date and time -/
theorem split_parts (value : Bytes) :
    value = Bytes.slice value 0 4 ++
    (Bytes.slice value 4 1 ++ (Bytes.slice value 5 2 ++ (Bytes.slice value 7 1 ++
      (Bytes.slice value 8 2 ++
        (Bytes.slice value 10 1 ++ (Bytes.slice value 11 2 ++ (Bytes.slice value 13 1 ++
      (Bytes.slice value 14 2 ++
        (Bytes.slice value 16 1 ++ (Bytes.slice value 17 2 ++ value.drop 19)))))))))) := by
  have h0 : value.drop 0 = value := List.drop_zero
  rw [← drop_slice value 17 2, ← drop_slice value 16 1, ← drop_slice value 14 2,
    ← drop_slice value 13 1,
    ← drop_slice value 11 2, ← drop_slice value 10 1, ← drop_slice value 8 2,
    ← drop_slice value 7 1,
    ← drop_slice value 5 2, ← drop_slice value 4 1, ← drop_slice value 0 4, h0]

theorem Moment.text_parts (m : Moment) :
    m.text = Decimal.fixed 4 m.date.year ++ ([45] ++ (Decimal.fixed 2 m.date.month ++ ([45] ++
      (Decimal.fixed 2 m.date.day ++
        ([84] ++ (Decimal.fixed 2 m.hour ++ ([58] ++ (Decimal.fixed 2 m.minute ++
      ([58] ++ (Decimal.fixed 2 m.second ++ m.zone.text)))))))))) := by
  unfold Moment.text
  simp only [List.append_assoc]
  rfl

theorem Moment.text_length (m : Moment) : m.text.length = 20 ∨ m.text.length = 25 := by
  rw [Moment.text_parts]
  simp only [List.length_append, Decimal.fixed_length, List.length_singleton]
  cases hz : m.zone with
  | utc => exact Or.inl rfl
  | offset west hour minute hh hm =>
    rw [Zone.text_offset_length]
    exact Or.inr rfl

theorem text_iff {value : Bytes} (h : 19 ≤ value.length) (m : Moment) :
    value = m.text ↔
      (∀ p ∈ SEPARATORS, Bytes.slice value p.1 1 = [p.2]) ∧
      (Bytes.slice value 0 4 = Decimal.fixed 4 m.date.year ∧ Bytes.slice value 5 2 = Decimal.fixed 2
        m.date.month ∧
        Bytes.slice value 8 2 = Decimal.fixed 2 m.date.day) ∧
      (Bytes.slice value 11 2 = Decimal.fixed 2 m.hour ∧ Bytes.slice value 14 2 =
        Decimal.fixed 2 m.minute ∧
        Bytes.slice value 17 2 = Decimal.fixed 2 m.second) ∧
      value.drop 19 = m.zone.text := by
  have hseparators : (∀ p ∈ SEPARATORS, Bytes.slice value p.1 1 = [p.2]) ↔
      Bytes.slice value 4 1 = [45] ∧ Bytes.slice value 7 1 = [45] ∧ Bytes.slice value 10 1 = [84] ∧
        Bytes.slice value 13 1 = [58] ∧ Bytes.slice value 16 1 = [58] := by
    simp [SEPARATORS]
  rw [hseparators]
  constructor
  · intro heq
    have hparts := (split_parts value).symm.trans (heq.trans m.text_parts)
    have width {i n k : Nat} (hi : i + n ≤ value.length) : (Bytes.slice value i n).length =
      (Decimal.fixed n k).length := by
      rw [slice_length hi, Decimal.fixed_length]
    have one {i : Nat} {c : UInt8} (hi : i + 1 ≤ value.length) : (Bytes.slice value i 1).length =
      [c].length :=
      slice_length hi
    obtain ⟨hyear, hparts⟩ := List.append_inj hparts (width (by omega))
    obtain ⟨h4, hparts⟩ := List.append_inj hparts (one (by omega))
    obtain ⟨hmonth, hparts⟩ := List.append_inj hparts (width (by omega))
    obtain ⟨h7, hparts⟩ := List.append_inj hparts (one (by omega))
    obtain ⟨hday, hparts⟩ := List.append_inj hparts (width (by omega))
    obtain ⟨h10, hparts⟩ := List.append_inj hparts (one (by omega))
    obtain ⟨hhour, hparts⟩ := List.append_inj hparts (width (by omega))
    obtain ⟨h13, hparts⟩ := List.append_inj hparts (one (by omega))
    obtain ⟨hminute, hparts⟩ := List.append_inj hparts (width (by omega))
    obtain ⟨h16, hparts⟩ := List.append_inj hparts (one (by omega))
    obtain ⟨hsecond, hzone⟩ := List.append_inj hparts (width (by omega))
    exact ⟨⟨h4, h7, h10, h13, h16⟩, ⟨hyear, hmonth, hday⟩, ⟨hhour, hminute, hsecond⟩, hzone⟩
  · rintro ⟨⟨h4, h7, h10, h13, h16⟩, ⟨hyear, hmonth, hday⟩, ⟨hhour, hminute, hsecond⟩, hzone⟩
    refine (split_parts value).trans ?_
    rw [Moment.text_parts, hyear, h4, hmonth, h7, hday, h10, hhour, h13, hminute, h16,
      hsecond, hzone]

/-! ## the instant -/

theorem separators_places {value : Bytes} (h : 17 ≤ value.length) :
    ∀ p ∈ SEPARATORS, p.1 < value.length := by
  intro p hp
  have hplace : ∀ p ∈ SEPARATORS, p.1 ≤ 16 := by decide
  have := hplace p hp
  omega

/-- a string of the right length with its separators comes down to its numbers and its zone -/
theorem contestTimeParse_numbers {value : Bytes} (hlen : value.length = 20 ∨ value.length = 25)
    (hsep : ∀ p ∈ SEPARATORS, Bytes.slice value p.1 1 = [p.2]) {zone : Option Int}
    (hzone : zoneOffset value = some zone) :
    contestTimeParse value = zone.elim (some (false, 0))
      (timestampOf (number (Bytes.slice value 0 4))
      (number (Bytes.slice value 5 2)) (number (Bytes.slice value 8 2))
      (number (Bytes.slice value 11 2))
      (number (Bytes.slice value 14 2)) (number (Bytes.slice value 17 2))) := by
  have hne : value ≠ [] := by
    rintro rfl
    exact absurd hlen (by decide)
  obtain ⟨b, hb, hiff⟩ := separated_spec SEPARATORS
    (separators_places (show 17 ≤ value.length by omega))
  rw [hiff.mpr hsep] at hb
  unfold contestTimeParse
  rw [if_neg hne, if_neg (by omega), hb, hzone]
  rw [readDigits_slice (by omega), readDigits_slice (by omega), readDigits_slice (by omega),
    readDigits_slice (by omega),
    readDigits_slice (by omega), readDigits_slice (by omega)]
  cases zone <;> rfl

/-- any other string is refused -/
theorem contestTimeParse_refused {value : Bytes} (hne : value ≠ [])
    (h : ¬ ((value.length = 20 ∨ value.length = 25) ∧ ∀ p ∈ SEPARATORS,
      Bytes.slice value p.1 1 = [p.2])) :
    contestTimeParse value = some (false, 0) := by
  unfold contestTimeParse
  rw [if_neg hne]
  by_cases hlen : value.length ≠ 20 ∧ value.length ≠ 25
  · rw [if_pos hlen]
    rfl
  obtain ⟨b, hb, hiff⟩ := separated_spec SEPARATORS
    (separators_places (show 17 ≤ value.length by omega))
  have hfalse : b = false := Bool.eq_false_iff.mpr fun ht => h ⟨by omega, hiff.mp ht⟩
  rw [if_neg hlen, hb, hfalse]
  rfl

/-- the moments are parsed to their seconds -/
theorem contestTimeParse_text (m : Moment) :
    contestTimeParse m.text = some (settled m.seconds) := by
  have hlen := m.text_length
  obtain ⟨hsep, ⟨hyear, hmonth, hday⟩, ⟨hhour, hminute, hsecond⟩, hzone⟩ :=
    (text_iff (by omega) m).mp rfl
  obtain ⟨zone, hread, hiff⟩ := zoneOffset_spec hlen
  have hoffset : zone = some m.zone.seconds := (hiff _).mpr ⟨m.zone, hzone, rfl⟩
  have hyear9999 := m.year_le
  have htwelve := m.date.month_le
  have hlast := Nat.le_trans m.date.day_le (Calendar.monthLength_le _ _)
  have hh := m.hour_le
  have hm := m.minute_le
  have hs := m.second_le
  rw [contestTimeParse_numbers hlen hsep hread, hoffset, hyear, hmonth, hday, hhour,
    hminute, hsecond,
    number_fixed (by omega), number_fixed (by omega), number_fixed (by omega),
    number_fixed (by omega),
    number_fixed (by omega), number_fixed (by omega), Option.elim_some, timestampOf_date m.date
    m.year_ge hh hm hs,
    Moment.seconds]

/-- a string is refused or the text of a moment -/
theorem contestTimeParse_cases {value : Bytes} (hne : value ≠ []) :
    contestTimeParse value = some (false, 0) ∨ ∃ m : Moment, value = m.text := by
  by_cases h : (value.length = 20 ∨ value.length = 25) ∧ ∀ p ∈ SEPARATORS,
    Bytes.slice value p.1 1 = [p.2]
  swap
  · exact Or.inl (contestTimeParse_refused hne h)
  obtain ⟨hlen, hsep⟩ := h
  obtain ⟨zone, hread, hiff⟩ := zoneOffset_spec hlen
  have heval := contestTimeParse_numbers hlen hsep hread
  cases zone with
  | none => exact Or.inl heval
  | some offset =>
    obtain ⟨z, hz, -⟩ := (hiff offset).mp rfl
    rcases timestampOf_cases (number (Bytes.slice value 0 4)) (number (Bytes.slice value 5 2))
      (number (Bytes.slice value 8 2)) (number (Bytes.slice value 11 2))
      (number (Bytes.slice value 14 2))
      (number (Bytes.slice value 17 2)) offset with hfail | ⟨d, h, m, s, hyear, hh, hm, hs, ey, emo,
        ed, eh, em, es⟩
    · exact Or.inl (heval.trans hfail)
    have width {i n k : Nat} (hi : i + n ≤ value.length) (e : number (Bytes.slice value i n) = k) :
        Bytes.slice value i n = Decimal.fixed n k := by
      have := fixed_of_number e
      rwa [slice_length hi] at this
    have hmax := number_lt (Bytes.slice value 0 4)
    rw [ey, slice_length (by omega)] at hmax
    exact Or.inr ⟨⟨d, h, m, s, z, hyear, by omega, hh, hm, hs⟩, (text_iff (by omega) _).mpr ⟨hsep,
      ⟨width (by omega) ey, width (by omega) emo, width (by omega) ed⟩,
      ⟨width (by omega) eh, width (by omega) em, width (by omega) es⟩, hz⟩⟩

/-- **contest_time_parse is the ISO 8601 instant**: on a string that is not empty it reads no octet
behind the terminator, succeeds exactly for the texts of the moments that are not before the epoch
and then returns their seconds, fails with the timestamp 0, and orders what it accepts as time
does -/
theorem contestTimeParse_instant (value : Bytes) (hne : value ≠ []) :
    (∃ ok timestamp, contestTimeParse value = some (ok, timestamp)) ∧
    (∀ timestamp, contestTimeParse value = some (true, timestamp) ↔
      ∃ m : Moment, value = m.text ∧ m.At timestamp ∧ 0 ≤ timestamp) ∧
    (∀ timestamp, contestTimeParse value = some (false, timestamp) → timestamp = 0) ∧
    ∀ timestamp, contestTimeParse value = some (true, timestamp) →
      ∀ (other : Bytes) (timestamp' : Int), other ≠ [] → contestTimeParse other =
      some (true, timestamp') →
      ∀ (m m' : Moment) (t t' : Int), value = m.text → other = m'.text → m.At t → m'.At t' →
        (timestamp < timestamp' ↔ t < t') ∧ (timestamp = timestamp' ↔ t = t') := by
  have hvalue {m : Moment} {t : Int} (h : contestTimeParse m.text = some (true, t)) :
    t = m.seconds ∧ 0 ≤ t := by
    rw [contestTimeParse_text, settled] at h
    split at h
    · cases h
    · cases h
      omega
  refine ⟨?_, fun t => ⟨fun h => ?_, ?_⟩, fun t h => ?_, ?_⟩
  · rcases contestTimeParse_cases hne with h | ⟨m, hm⟩
    · exact ⟨_, _, h⟩
    · rw [hm]
      exact ⟨_, _, contestTimeParse_text m⟩
  · rcases contestTimeParse_cases hne with hfail | ⟨m, hm⟩
    · rw [hfail] at h
      cases h
    · rw [hm] at h
      obtain ⟨ht, hpos⟩ := hvalue h
      exact ⟨m, hm, (m.at_iff t).mpr ht, hpos⟩
  · rintro ⟨m, hm, ht, hpos⟩
    rw [(m.at_iff t).mp ht] at hpos ⊢
    rw [hm, contestTimeParse_text, settled, if_neg (by omega)]
  · rcases contestTimeParse_cases hne with hfail | ⟨m, hm⟩
    · rw [hfail] at h
      cases h
      rfl
    · rw [hm, contestTimeParse_text, settled] at h
      split at h
      · cases h
        rfl
      · cases h
  · intro timestamp h other timestamp' _ h' m m' t t' hm hm' ht ht'
    rw [hm] at h
    rw [hm'] at h'
    rw [(hvalue h).1, (hvalue h').1, (m.at_iff t).mp ht, (m'.at_iff t').mp ht']
    exact ⟨Iff.rfl, Iff.rfl⟩

/-- the leap day of 2000, an hour into it on a clock that is an hour ahead -/
theorem contestTimeParse_leapDay :
    contestTimeParse (ascii "2000-02-29T01:00:00+01:00") = some (true, 951782400) := by
  refine ((contestTimeParse_instant _ (by decide)).2.1 _).mpr
    ⟨⟨⟨2000, 2, 29, by decide, by decide, by decide, by decide⟩,
    1, 0, 0, .offset false 1 0 (by decide)
    (by decide), by decide, by decide, by decide, by decide, by decide⟩,
    by decide, ?_, by decide⟩
  rw [Moment.at_iff]
  rfl

end Contest

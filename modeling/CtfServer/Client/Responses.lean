import CtfServer.Client.Session
import CtfServer.Json.Stringify
import CtfServer.App.Listing

/-!
# What the client takes of the lists

`objectResponse` and `listResponse` (api.ts), on what `response.json()` reads of a body.

* `JsValue`, `ReadsValue`, `ReadsObject`, `ReadsArray`   what `JSON.parse` reads;
* `objectResponse`, `listResponse`   the checks on the fields of an answer;
* `ReadsArray.unique`                a body is read in one way;
* `ServerList`                       the lists of the server, with the fields that the client asks
                                     for;
* `lists_taken`                      **the client takes every list of the server**, whole and as it
                                     was stored.
-/

set_option linter.unusedVariables false
set_option linter.unusedSimpArgs false

namespace Client

open Json
open App (IsObject IsArray Challenge Answer PublicUser answerMembers userMembers arrayText)

/-! ## reading -/

/-- a value of an object; numbers are those that a double holds exactly -/
inductive JsValue where
  | null
  | boolean (b : Bool)
  | number (n : Nat)
  | string (s : JsString)
  deriving DecidableEq, Repr

abbrev JsObject := List (JsString × JsValue)

/-- `JSON.parse` of a literal, of an integer up to 2^53, of a string -/
inductive ReadsValue : Bytes → JsValue → Prop where
  | null : ReadsValue (ascii "null") .null
  | boolean (b : Bool) : ReadsValue (if b then ascii "true" else ascii "false") (.boolean b)
  | number (n : Nat) : n ≤ 2^53 → ReadsValue (Decimal.digits n) (.number n)
  | string {f : Bytes} {s : JsString} : ParsesTo f s → ReadsValue (quote f) (.string s)

def ReadsMember (p : Bytes × Bytes) (q : JsString × JsValue) : Prop :=
  ParsesTo p.1 q.1 ∧ ReadsValue p.2 q.2

/-- `JSON.parse` of an object whose keys are distinct -/
def ReadsObject (text : Bytes) (object : JsObject) : Prop :=
  ∃ ps, IsObject ps text ∧ (object.map Prod.fst).Nodup ∧ List.Forall₂ ReadsMember ps object

def ReadsArray (text : Bytes) (objects : List JsObject) : Prop :=
  ∃ vs, IsArray (Value List.Nodup 1) vs text ∧ List.Forall₂ ReadsObject vs objects

/-! ## the checks -/

/-- the types in `SchemaFields` -/
inductive JsType where
  | string | number | boolean
  deriving DecidableEq, Repr

/-- `typeof field === type` -/
def JsValue.hasType : JsValue → JsType → Bool
  | .string _, .string => true
  | .number _, .number => true
  | .boolean _, .boolean => true
  | _, _ => false

abbrev SchemaFields := List (JsString × JsType)

/-- a literal -/
def js (s : String) : JsString := JsString.units s.toList

def challengeFields : SchemaFields :=
  [(js "id", .number), (js "name", .string), (js "description", .string), (js "genre", .string),
    (js "creator_id", .string)]

/-- `{ ...challengeFields, flag: 'string' }` -/
def ownChallengeFields : SchemaFields := challengeFields ++ [(js "flag", .string)]

def answerFields : SchemaFields :=
  [(js "challenge_id", .number), (js "username", .string), (js "answered_at", .string)]

/-- `{ ...answerFields, answer: 'string', correct: 'boolean' }` -/
def ownAnswerFields : SchemaFields :=
  answerFields ++ [(js "answer", .string), (js "correct", .boolean)]

/-- the fields of `users` -/
def userFields : SchemaFields :=
  [(js "id", .string), (js "username", .string), (js "score", .number)]

def unexpected : ApiError := { message := "サーバーの応答形式が不正です。" }

/-- the property of an object -/
def JsObject.get (object : JsObject) (key : JsString) : Option JsValue :=
  (object.find? fun q => decide (q.1 = key)).map Prod.snd

/-- the loop of `objectResponse` -/
def objectFields (object : JsObject) : SchemaFields → Except ApiError JsObject
  | [] => .ok []
  | (key, type) :: fields =>
    match object.get key with
    | none => objectFields object fields
    | some field =>
      if field.hasType type then (objectFields object fields).map fun result =>
        (key, field) :: result
      else .error unexpected

/-- `objectResponse`; `none` stands for what is no object, or an array -/
def objectResponse (value : Option JsObject) (fields : SchemaFields) : Except ApiError JsObject :=
  match value with
  | none => .error unexpected
  | some object => objectFields object fields

/-- `listResponse`; `none` stands for what is no array -/
def listResponse (value : Option (List (Option JsObject))) (fields : SchemaFields) :
    Except ApiError (List JsObject) :=
  match value with
  | none => .error unexpected
  | some items => items.mapM fun item => objectResponse item fields

/-! ## one reading -/

/-- a numeral starts with a digit -/
theorem digits_ne {n : Nat} {c : UInt8} {t : Bytes} (hc : c.toNat < 48 ∨ 57 < c.toNat) :
    Decimal.digits n ≠ c :: t := by
  intro heq
  have hdigit := (Decimal.isDigit_iff c).mp
    (Decimal.digits_isDigit n c (by rw [heq]; exact List.mem_cons_self))
  omega

theorem ReadsValue.of_quote {f : Bytes} {x : JsValue} (h : ReadsValue (quote f) x) :
    ∃ s, ParsesTo f s ∧ x = .string s := by
  generalize hv : quote f = v at h
  cases h with
  | null => exact absurd (List.cons.inj hv).1 (by decide)
  | boolean b => cases b <;> exact absurd (List.cons.inj hv).1 (by decide)
  | number n _ => exact absurd hv.symm (digits_ne (by decide))
  | string hf =>
    cases quote_inj hv
    exact ⟨_, hf, rfl⟩

theorem ReadsValue.of_digits {n : Nat} {x : JsValue} (h : ReadsValue (Decimal.digits n) x) :
    x = .number n := by
  generalize hv : Decimal.digits n = v at h
  cases h with
  | null => exact absurd hv (digits_ne (by decide))
  | boolean b => cases b <;> exact absurd hv (digits_ne (by decide))
  | number m _ =>
    have heq := congrArg Decimal.value hv
    rw [Decimal.value_digits, Decimal.value_digits] at heq
    rw [heq]
  | string _ => exact absurd hv (digits_ne (by decide))

theorem ReadsValue.unique {v : Bytes} {x y : JsValue} (hx : ReadsValue v x) (hy : ReadsValue v y) :
    x = y := by
  cases hx with
  | number n _ => rw [hy.of_digits]
  | string hf =>
    obtain ⟨s, hs, rfl⟩ := hy.of_quote
    rw [hf.unique hs]
  | null =>
    generalize hv : ascii "null" = v at hy
    cases hy with
    | null => rfl
    | boolean b => cases b <;> exact absurd hv (by decide)
    | number n _ => exact absurd hv.symm (digits_ne (by decide))
    | string _ => exact absurd (List.cons.inj hv).1 (by decide)
  | boolean b =>
    generalize hv : (if b then ascii "true" else ascii "false") = v at hy
    cases hy with
    | null => cases b <;> exact absurd hv (by decide)
    | boolean b' => cases b <;> cases b' <;> first | rfl | exact absurd hv (by decide)
    | number n _ => cases b <;> exact absurd hv.symm (digits_ne (by decide))
    | string _ => cases b <;> exact absurd (List.cons.inj hv).1 (by decide)

theorem readsMember_unique : Relator.RightUnique ReadsMember := by
  intro p q q' h h'
  exact Prod.ext (h.1.unique h'.1) (h.2.unique h'.2)

theorem IsObject.unique {ps ps' : List (Bytes × Bytes)} {text : Bytes} (h : IsObject ps text)
    (h' : IsObject ps' text) :
    ps = ps' := by
  obtain ⟨ms, hms, -, rfl⟩ := h
  obtain ⟨ms', hms', -, heq⟩ := h'
  have halike := valueAt_unique List.Nodup List.Nodup 1 1
  have hopens := valueAt_opens List.Nodup 1
  exact (Members.unique halike hopens hopens hms hms' (r := []) (s := []) (List.cons.inj heq).2).1

theorem readsObject_unique : Relator.RightUnique ReadsObject := by
  rintro text object object' ⟨ps, hps, -, h⟩ ⟨ps', hps', -, h'⟩
  cases IsObject.unique hps hps'
  exact List.right_unique_forall₂' readsMember_unique h h'

/-- a body is read in one way -/
theorem ReadsArray.unique {text : Bytes} {objects objects' : List JsObject}
    (h : ReadsArray text objects) (h' : ReadsArray text objects') : objects = objects' := by
  obtain ⟨vs, hvs, hobjects⟩ := h
  obtain ⟨vs', hvs', hobjects'⟩ := h'
  have halike := valueAt_unique List.Nodup List.Nodup 2 2
  have hopens := valueAt_opens List.Nodup 2
  have hbody : ∀ {vs : List Bytes}, IsArray (Value List.Nodup 1) vs text →
      ∃ es, ArrayBody (ValueAt List.Nodup 2) vs es ∧ text = 0x5b :: (es ++ [0x5d]) := by
    rintro vs (⟨rfl, rfl⟩ | ⟨es, hes, rfl⟩)
    · exact ⟨[], .inl ⟨rfl, List.forall_mem_nil _⟩, rfl⟩
    · exact ⟨es, .inr hes, rfl⟩
  obtain ⟨es, hes, rfl⟩ := hbody hvs
  obtain ⟨es', hes', heq⟩ := hbody hvs'
  obtain ⟨rfl, -, -⟩ := ArrayBody.unique halike hopens hopens hes hes' (r := []) (s := [])
    (List.cons.inj heq).2
  exact List.right_unique_forall₂' readsObject_unique hobjects hobjects'

/-- what stands for an element of the first list -/
theorem forall₂_mem_left {α β : Type} {R : α → β → Prop} {l : List α} {l' : List β}
    (h : List.Forall₂ R l l') {a : α} (ha : a ∈ l) : ∃ b ∈ l', R a b := by
  induction h with
  | nil => cases ha
  | cons hab _ ih =>
    rcases List.mem_cons.mp ha with rfl | hmem
    · exact ⟨_, List.mem_cons_self, hab⟩
    · obtain ⟨b, hb, hR⟩ := ih hmem
      exact ⟨b, List.mem_cons_of_mem _ hb, hR⟩

/-! ## what the checks keep -/

/-- the fields that are asked for, in their order -/
def project (fields : SchemaFields) (object : JsObject) : JsObject :=
  fields.filterMap fun field => (object.get field.1).map fun value => (field.1, value)

/-- the object has the fields, with their types -/
def Typed (fields : SchemaFields) (object : JsObject) : Prop :=
  ∀ field ∈ fields, ∃ value, object.get field.1 = some value ∧ value.hasType field.2 = true

theorem objectFields_typed {fields : SchemaFields} {object : JsObject} (h : Typed fields object) :
    objectFields object fields = .ok (project fields object) ∧
      (project fields object).map Prod.fst = fields.map Prod.fst := by
  induction fields with
  | nil => exact ⟨rfl, rfl⟩
  | cons field fields ih =>
    obtain ⟨key, type⟩ := field
    obtain ⟨⟨value, hget, htype⟩, hfields⟩ := List.forall_mem_cons.mp h
    obtain ⟨hok, hkeys⟩ := ih hfields
    have hproject : project ((key, type) :: fields) object = (key, value) ::
      project fields object := by
      unfold project
      rw [List.filterMap_cons, hget]
      rfl
    constructor
    · rw [objectFields, hget]
      dsimp only
      rw [if_pos htype, hok, hproject]
      rfl
    · rw [hproject, List.map_cons, hkeys]
      rfl

theorem listResponse_typed {fields : SchemaFields} {objects : List JsObject}
    (h : ∀ object ∈ objects, Typed fields object) :
    listResponse (some (objects.map some)) fields = .ok (objects.map (project fields)) := by
  show (objects.map some).mapM (fun item => objectResponse item fields) = _
  induction objects with
  | nil => rfl
  | cons object objects ih =>
    obtain ⟨hobject, hobjects⟩ := List.forall_mem_cons.mp h
    have hfirst : objectResponse (some object) fields = .ok (project fields object) :=
      (objectFields_typed hobject).1
    rw [List.map_cons, List.mapM_cons, hfirst, ih hobjects]
    rfl

theorem JsObject.get_cons (q : JsString × JsValue) (object : JsObject) (key : JsString) :
    JsObject.get (q :: object) key = if q.1 = key then some q.2 else JsObject.get object key := by
  unfold JsObject.get
  by_cases hq : q.1 = key
  · rw [List.find?_cons_of_pos (by simpa using hq), if_pos hq]
    rfl
  · rw [List.find?_cons_of_neg (by simpa using hq), if_neg hq]

theorem get_mem {object : JsObject} (hnodup : (object.map Prod.fst).Nodup) {key : JsString}
    {value : JsValue} (h : (key, value) ∈ object) : object.get key = some value := by
  induction object with
  | nil => cases h
  | cons q object ih =>
    rw [List.map_cons, List.nodup_cons] at hnodup
    rw [JsObject.get_cons]
    rcases List.mem_cons.mp h with rfl | hmem
    · rw [if_pos rfl]
    · have hne : q.1 ≠ key := by
        rintro rfl
        exact hnodup.1 (List.mem_map.mpr ⟨_, hmem, rfl⟩)
      rw [if_neg hne]
      exact ih hnodup.2 hmem

/-- a field that is asked for is kept as it was -/
theorem get_project {fields : SchemaFields} {object : JsObject} {key : JsString}
    (h : key ∈ fields.map Prod.fst) :
    (project fields object).get key = object.get key := by
  induction fields with
  | nil => cases h
  | cons field fields ih =>
    have hcons : project (field :: fields) object =
        ((object.get field.1).map fun value => (field.1, value)).toList ++
        project fields object := by
      unfold project
      rw [List.filterMap_cons]
      cases object.get field.1 <;> rfl
    -- a field that is not there leaves no entry behind
    have hmissing : object.get key = none → ∀ fields : SchemaFields, (project fields object).get
      key = none := by
      intro hnone fields
      unfold JsObject.get
      rw [Option.map_eq_none_iff, List.find?_eq_none]
      intro q hq
      obtain ⟨field, -, hfield⟩ := List.mem_filterMap.mp hq
      obtain ⟨value, hvalue, rfl⟩ := Option.map_eq_some_iff.mp hfield
      have hne : field.1 ≠ key := by
        rintro rfl
        rw [hnone] at hvalue
        cases hvalue
      simpa using hne
    cases hget : object.get key with
    | none => exact hmissing hget _
    | some value =>
      rw [hcons]
      by_cases hkey : field.1 = key
      · rw [hkey, hget]
        show JsObject.get ((key, value) :: project fields object) key = _
        rw [JsObject.get_cons, if_pos rfl]
      · have hrest := ih ((List.mem_cons.mp h).resolve_left (Ne.symm hkey))
        rw [hget] at hrest
        cases hfield : object.get field.1 with
        | none => exact hrest
        | some other =>
          show JsObject.get ((field.1, other) :: project fields object) key = _
          rw [JsObject.get_cons, if_neg hkey, hrest]

/-- members that are read as an object with the fields -/
def Shown (fields : SchemaFields) (ps : List (Bytes × Bytes)) : Prop :=
  ∃ object : JsObject, List.Forall₂ ReadsMember ps object ∧ (object.map Prod.fst).Nodup ∧
    ∀ field ∈ fields, ∃ value, (field.1, value) ∈ object ∧ value.hasType field.2 = true

/-! ## the lists of the server -/

/-- the members of a challenge in a list -/
def listedMembers (includeFlag : Bool) (challenge : Challenge) : List (Bytes × Bytes) :=
  [(ascii "id", App.intText challenge.id), (ascii "creator_id", quote challenge.creatorId),
    (ascii "name", quote challenge.name), (ascii "description", quote challenge.description)] ++
  ((if includeFlag then [(ascii "flag", quote challenge.flag)] else []) ++
    [(ascii "genre", quote (ctfGenreToString challenge.genre))])

/-- the lists that the server writes, the fields that the client asks for, and the members of the
objects -/
inductive ServerList : Bytes → SchemaFields → List (List (Bytes × Bytes)) → Prop where
  | challenges {challenges : List Challenge} : (∀ c ∈ challenges, c.Literals ∧ c.id ≤ INT_MAX) →
      ServerList (App.challengesToJsonWithoutFlag challenges) challengeFields
      (challenges.map (listedMembers false))
  | ownChallenges {challenges : List Challenge} : (∀ c ∈ challenges, c.Literals ∧ c.id ≤ INT_MAX) →
      ServerList (App.challengesToJson challenges) ownChallengeFields
      (challenges.map (listedMembers true))
  | answers {answers : List Answer} : (∀ answer ∈ answers, answer.WellFormed) →
      ServerList (App.answersToJson true answers) answerFields (answers.map (answerMembers true))
  | ownAnswers {answers : List Answer} : (∀ answer ∈ answers, answer.WellFormed) →
      ServerList (App.answersToJson false answers) ownAnswerFields
      (answers.map (answerMembers false))
  | users {users : List PublicUser} : (∀ user ∈ users, user.WellFormed ∧ 0 ≤ user.score ∧
      user.score ≤ 2^53) →
      ServerList (App.publicUsersToJson users) userFields (users.map userMembers)

/-- an array of objects, each read with the fields -/
theorem readsArray_text {α : Type} {fields : SchemaFields} {rows : List α}
    {members : α → List (Bytes × Bytes)}
    {text : α → Bytes} (h : ∀ row ∈ rows, IsObject (members row) (text row) ∧
      Shown fields (members row)) :
    ∃ objects, ReadsArray (arrayText (rows.map text)) objects ∧
      List.Forall₂ (List.Forall₂ ReadsMember) (rows.map members) objects ∧ ∀ object ∈ objects,
      Typed fields object := by
  have hobjects : ∃ objects, List.Forall₂ ReadsObject (rows.map text) objects ∧
      List.Forall₂ (List.Forall₂ ReadsMember) (rows.map members) objects ∧ ∀ object ∈ objects,
      Typed fields object := by
    induction rows with
    | nil => exact ⟨[], .nil, .nil, List.forall_mem_nil _⟩
    | cons row rows ih =>
      obtain ⟨⟨hrow, object, hread, hnodup, hfields⟩, hrows⟩ := List.forall_mem_cons.mp h
      obtain ⟨objects, h1, h2, h3⟩ := ih hrows
      refine ⟨object :: objects, .cons ⟨_, hrow, hnodup, hread⟩ h1, .cons hread h2, ?_⟩
      rw [List.forall_mem_cons]
      refine ⟨fun field hfield => ?_, h3⟩
      obtain ⟨value, hmem, htype⟩ := hfields field hfield
      exact ⟨value, get_mem hnodup hmem, htype⟩
  obtain ⟨objects, h1, h2, h3⟩ := hobjects
  exact ⟨objects, ⟨_, App.isArray_text (List.forall_mem_map.mpr fun row hrow =>
    (h row hrow).1.value), h1⟩, h2, h3⟩

/-! ## the objects of the rows -/

/-- the bytes of a string are the encoding of its characters -/
theorem ascii_encode (w : String) : ascii w = encode w.toList := by
  unfold ascii
  rw [← String.utf8Encode_toList]
  exact List.toList_data_toByteArray

/-- a key is read as it stands -/
theorem parsesTo_keys : ∀ w ∈ ["id", "name", "description", "genre", "creator_id", "flag",
    "challenge_id", "username",
    "answered_at", "answer", "correct", "score"], ParsesTo (ascii w) (js w) := by
  have hplain : ∀ w ∈ ["id", "name", "description", "genre", "creator_id", "flag",
    "challenge_id", "username",
      "answered_at", "answer", "correct", "score"], ∀ ch ∈ w.toList, 0x20 ≤ ch.val.toNat ∧
        ch ≠ '"' ∧ ch ≠ '\\' := by
    simp
  intro w hw
  rw [ascii_encode]
  exact (denotes_plain (hplain w hw)).parsesTo

/-- a value of this type -/
def Holds (type : JsType) (v : Bytes) : Prop :=
  ∃ value, ReadsValue v value ∧ value.hasType type = true

theorem holds_string {f : Bytes} (h : Chars f) : Holds .string (quote f) := by
  obtain ⟨s, hs⟩ := h.parsesTo
  exact ⟨.string s, .string hs, rfl⟩

theorem holds_number {n : Nat} (h : n ≤ 2^53) : Holds .number (Decimal.digits n) :=
  ⟨.number n, .number n h, rfl⟩

theorem holds_int {n : Int} (h : 0 ≤ n ∧ n ≤ 2^53) : Holds .number (App.intText n) := by
  obtain ⟨m, rfl⟩ := Int.eq_ofNat_of_zero_le h.1
  have hm : m ≤ 2^53 := by omega
  rw [App.intText_nat]
  exact holds_number hm

theorem holds_boolean (b : Bool) : Holds .boolean (if b then ascii "true" else ascii "false") :=
  ⟨.boolean b, .boolean b, rfl⟩

/-- members by name, with the types of their values -/
abbrev Entries := List (String × Bytes × JsType)

theorem shown_entries {fields : SchemaFields} (entries : Entries)
    (hentries : ∀ e ∈ entries, ParsesTo (ascii e.1) (js e.1) ∧
    Holds e.2.2 e.2.1) (hnodup : (entries.map fun e => js e.1).Nodup)
    (hfields : ∀ field ∈ fields, field ∈ entries.map fun e => (js e.1, e.2.2)) :
    Shown fields (entries.map fun e => (ascii e.1, e.2.1)) := by
  have hobject : ∃ object : JsObject, List.Forall₂ ReadsMember
    (entries.map fun e => (ascii e.1, e.2.1)) object ∧
      object.map Prod.fst = entries.map (fun e => js e.1) ∧
      ∀ e ∈ entries, ∃ value, (js e.1, value) ∈ object ∧ value.hasType e.2.2 = true := by
    clear hnodup hfields
    induction entries with
    | nil => exact ⟨[], .nil, rfl, List.forall_mem_nil _⟩
    | cons e entries ih =>
      obtain ⟨⟨hkey, value, hvalue, htype⟩, hrest⟩ := List.forall_mem_cons.mp hentries
      obtain ⟨object, h1, h2, h3⟩ := ih hrest
      refine ⟨(js e.1, value) :: object,
        .cons ⟨hkey, hvalue⟩ h1, by rw [List.map_cons, h2, List.map_cons], ?_⟩
      rw [List.forall_mem_cons]
      refine ⟨⟨value, List.mem_cons_self, htype⟩, fun e' he' => ?_⟩
      obtain ⟨value', hmem, htype'⟩ := h3 e' he'
      exact ⟨value', List.mem_cons_of_mem _ hmem, htype'⟩
  obtain ⟨object, h1, h2, h3⟩ := hobject
  refine ⟨object, h1, by rw [h2]; exact hnodup, fun field hfield => ?_⟩
  obtain ⟨e, he, rfl⟩ := List.mem_map.mp (hfields field hfield)
  exact h3 e he

theorem shown_answer {answer : Answer} (h : answer.WellFormed) :
    Shown answerFields (answerMembers true answer) ∧ Shown ownAnswerFields
    (answerMembers false answer) := by
  have hkeys := parsesTo_keys
  simp only [List.forall_mem_cons] at hkeys
  obtain ⟨-, -, -, -, -, -, hid, hname, hat, htext, hcorrect, -⟩ := hkeys
  have v1 := holds_number (Nat.le_trans h.challengeId.2 (by decide))
  have v2 := holds_string (chars_plain (App.plain_username h.username))
  have v3 := holds_string (chars_plain (App.plain_stamp h.createdAt).1)
  have v4 := holds_string h.text.1
  have v5 := holds_boolean answer.isCorrected
  constructor
  · refine shown_entries [("challenge_id", Decimal.digits answer.challengeId, .number),
      ("username", quote answer.username, .string),
        ("answered_at", quote answer.createdAt, .string)] ?_ ?_ ?_
    · simp only [List.forall_mem_cons]
      exact ⟨⟨hid, v1⟩, ⟨hname, v2⟩, ⟨hat, v3⟩, List.forall_mem_nil _⟩
    · show [js "challenge_id", js "username", js "answered_at"].Nodup
      decide
    · exact fun field hfield => hfield
  · refine shown_entries [("challenge_id", Decimal.digits answer.challengeId, .number),
      ("answer", quote answer.answer, .string),
      ("correct", if answer.isCorrected then ascii "true" else ascii "false", .boolean),
      ("username", quote answer.username, .string),
      ("answered_at", quote answer.createdAt, .string)] ?_ ?_ ?_
    · simp only [List.forall_mem_cons]
      exact ⟨⟨hid, v1⟩, ⟨htext, v4⟩, ⟨hcorrect, v5⟩, ⟨hname, v2⟩, ⟨hat, v3⟩, List.forall_mem_nil _⟩
    · show [js "challenge_id", js "answer", js "correct", js "username", js "answered_at"].Nodup
      decide
    · show ∀ field ∈ ownAnswerFields, field ∈
        [(js "challenge_id", JsType.number), (js "answer", .string),
        (js "correct", .boolean), (js "username", .string), (js "answered_at", .string)]
      decide

theorem shown_user {user : PublicUser} (h : user.WellFormed)
    (hscore : 0 ≤ user.score ∧ user.score ≤ 2^53) :
    Shown userFields (userMembers user) := by
  have hkeys := parsesTo_keys
  simp only [List.forall_mem_cons] at hkeys
  obtain ⟨hid, -, -, -, -, -, -, hname, -, -, -, hpoints, -⟩ := hkeys
  have v1 := holds_string (App.chars_id h.id)
  have v2 := holds_string (chars_plain (App.plain_username h.username))
  refine shown_entries [("id", quote user.id, .string), ("username", quote user.username, .string),
    ("score", App.intText user.score, .number)] ?_ ?_ ?_
  · simp only [List.forall_mem_cons]
    exact ⟨⟨hid, v1⟩, ⟨hname, v2⟩, ⟨hpoints, holds_int hscore⟩, List.forall_mem_nil _⟩
  · show [js "id", js "username", js "score"].Nodup
    decide
  · exact fun field hfield => hfield

theorem shown_challenge {challenge : Challenge} (h : challenge.Literals)
    (hid : challenge.id ≤ INT_MAX) :
    Shown challengeFields (listedMembers false challenge) ∧ Shown ownChallengeFields
      (listedMembers true challenge) := by
  have hkeys := parsesTo_keys
  simp only [List.forall_mem_cons] at hkeys
  obtain ⟨k1, k2, k3, k4, k5, k6, -⟩ := hkeys
  have v1 := holds_int ⟨h.id, Int.le_trans hid (by decide)⟩
  have v2 := holds_string h.creatorId
  have v3 := holds_string h.name
  have v4 := holds_string h.description
  have v5 := holds_string h.flag
  have v6 := holds_string (chars_genre challenge.genre)
  constructor
  · refine shown_entries [("id", App.intText challenge.id, .number),
      ("creator_id", quote challenge.creatorId, .string),
      ("name", quote challenge.name, .string),
      ("description", quote challenge.description, .string),
      ("genre", quote (ctfGenreToString challenge.genre), .string)] ?_ ?_ ?_
    · simp only [List.forall_mem_cons]
      exact ⟨⟨k1, v1⟩, ⟨k5, v2⟩, ⟨k2, v3⟩, ⟨k3, v4⟩, ⟨k4, v6⟩, List.forall_mem_nil _⟩
    · show [js "id", js "creator_id", js "name", js "description", js "genre"].Nodup
      decide
    · show ∀ field ∈ challengeFields, field ∈ [(js "id", JsType.number), (js "creator_id", .string),
        (js "name", .string),
        (js "description", .string), (js "genre", .string)]
      decide
  · refine shown_entries [("id", App.intText challenge.id, .number),
      ("creator_id", quote challenge.creatorId, .string),
      ("name", quote challenge.name, .string),
      ("description", quote challenge.description, .string),
      ("flag", quote challenge.flag, .string), ("genre", quote (ctfGenreToString challenge.genre),
        .string)] ?_ ?_ ?_
    · simp only [List.forall_mem_cons]
      exact ⟨⟨k1, v1⟩, ⟨k5, v2⟩, ⟨k2, v3⟩, ⟨k3, v4⟩, ⟨k6, v5⟩, ⟨k4, v6⟩, List.forall_mem_nil _⟩
    · show [js "id", js "creator_id", js "name", js "description", js "flag", js "genre"].Nodup
      decide
    · show ∀ field ∈ ownChallengeFields, field ∈
        [(js "id", JsType.number), (js "creator_id", .string), (js "name", .string),
        (js "description", .string), (js "flag", .string), (js "genre", .string)]
      decide

/-- the text of a challenge is an object with these members -/
theorem listedObject {challenge : Challenge} (h : challenge.Literals) (includeFlag : Bool) :
    IsObject (listedMembers includeFlag challenge)
    (App.challengeToJsonImpl includeFlag challenge) := by
  have hkeys := parsesTo_keys
  simp only [List.forall_mem_cons] at hkeys
  obtain ⟨k1, k2, k3, k4, k5, k6, -⟩ := hkeys
  have hid : Flat (App.intText challenge.id) := .number (App.intText_number h.id)
  have htext : App.challengeToJsonImpl includeFlag challenge = App.objectText
    (listedMembers includeFlag challenge) := by
    have h0 : ascii "," = [0x2c] := rfl
    have h1 : ascii "\x7b\"id\":" = 0x7b :: (quote (ascii "id") ++ [0x3a]) := rfl
    have h2 : ascii ",\"creator_id\":\"" = 0x2c :: (quote (ascii "creator_id") ++ [0x3a, 0x22]) :=
      rfl
    have h3 : ascii "\",\"name\":\"" = 0x22 :: 0x2c :: (quote (ascii "name") ++ [0x3a, 0x22]) := rfl
    have h4 : ascii "\",\"description\":\"" = 0x22 :: 0x2c ::
      (quote (ascii "description") ++ [0x3a, 0x22]) := by
      decide +kernel
    have h5 : ascii "\",\"flag\":\"" = 0x22 :: 0x2c :: (quote (ascii "flag") ++ [0x3a, 0x22]) := rfl
    have h6 : ascii "\",\"genre\":\"" = 0x22 :: 0x2c :: (quote (ascii "genre") ++ [0x3a, 0x22]) :=
      rfl
    have h7 : ascii "\"\x7d" = [0x22, 0x7d] := rfl
    unfold App.challengeToJsonImpl App.objectText listedMembers App.membersText
    rw [h0, h1, h2, h3, h4, h5, h6, h7]
    generalize ascii "id" = k1
    generalize ascii "creator_id" = k2
    generalize ascii "name" = k3
    generalize ascii "description" = k4
    generalize ascii "flag" = k5
    generalize ascii "genre" = k6
    cases includeFlag <;> simp [List.intercalate, App.memberText, quote]
  rw [htext]
  cases includeFlag with
  | false =>
    refine App.isObject_text (List.cons_ne_nil _ _) ?_ ?_
    · show ∀ p ∈ [(ascii "id", App.intText challenge.id),
        (ascii "creator_id", quote challenge.creatorId),
        (ascii "name", quote challenge.name), (ascii "description", quote challenge.description),
        (ascii "genre", quote (ctfGenreToString challenge.genre))], Chars p.1 ∧ Flat p.2
      simp only [List.forall_mem_cons]
      exact ⟨⟨k1.body, hid⟩, ⟨k5.body, .string h.creatorId⟩, ⟨k2.body, .string h.name⟩,
        ⟨k3.body, .string h.description⟩,
        ⟨k4.body, .string (chars_genre _)⟩, List.forall_mem_nil _⟩
    · show [ascii "id", ascii "creator_id", ascii "name", ascii "description", ascii "genre"].Nodup
      decide
  | true =>
    refine App.isObject_text (List.cons_ne_nil _ _) ?_ ?_
    · show ∀ p ∈ [(ascii "id", App.intText challenge.id),
        (ascii "creator_id", quote challenge.creatorId),
        (ascii "name", quote challenge.name), (ascii "description", quote challenge.description),
        (ascii "flag", quote challenge.flag),
        (ascii "genre", quote (ctfGenreToString challenge.genre))], Chars p.1 ∧ Flat p.2
      simp only [List.forall_mem_cons]
      exact ⟨⟨k1.body, hid⟩, ⟨k5.body, .string h.creatorId⟩, ⟨k2.body, .string h.name⟩,
        ⟨k3.body, .string h.description⟩,
        ⟨k6.body, .string h.flag⟩, ⟨k4.body, .string (chars_genre _)⟩, List.forall_mem_nil _⟩
    · show [ascii "id", ascii "creator_id", ascii "name", ascii "description", ascii "flag",
        ascii "genre"].Nodup
      decide

/-- a list of the server is read as objects with the fields -/
theorem ServerList.read {body : Bytes} {fields : SchemaFields} {rows : List (List (Bytes × Bytes))}
    (h : ServerList body fields rows) :
    ∃ objects, ReadsArray body objects ∧ List.Forall₂ (List.Forall₂ ReadsMember) rows objects ∧
      ∀ object ∈ objects, Typed fields object := by
  cases h with
  | challenges hwf =>
    exact readsArray_text fun c hc =>
      ⟨listedObject (hwf c hc).1 false, (shown_challenge (hwf c hc).1 (hwf c hc).2).1⟩
  | ownChallenges hwf =>
    exact readsArray_text fun c hc =>
      ⟨listedObject (hwf c hc).1 true, (shown_challenge (hwf c hc).1 (hwf c hc).2).2⟩
  | answers hwf =>
    exact readsArray_text fun a ha =>
      ⟨App.answerObject (hwf a ha) true, (shown_answer (hwf a ha)).1⟩
  | ownAnswers hwf =>
    exact readsArray_text fun a ha =>
      ⟨App.answerObject (hwf a ha) false, (shown_answer (hwf a ha)).2⟩
  | users hwf =>
    exact readsArray_text fun u hu =>
      ⟨App.userObject (hwf u hu).1 (hwf u hu).2.1, shown_user (hwf u hu).1 (hwf u hu).2⟩

/-- **The client takes every list of the server**: there is one reading of its body, it has one
object for each row, whose members are read as they are stored; `listResponse` refuses none of them,
and every field that it asks for is there. -/
theorem lists_taken {body : Bytes} {fields : SchemaFields} {rows : List (List (Bytes × Bytes))}
    (h : ServerList body fields rows) :
    ∃ objects, (∀ other, ReadsArray body other ↔ other = objects) ∧
      List.Forall₂ (List.Forall₂ ReadsMember) rows objects ∧
      listResponse (some (objects.map some)) fields = .ok (objects.map (project fields)) ∧
      ∀ object ∈ objects, (project fields object).map Prod.fst = fields.map Prod.fst := by
  obtain ⟨objects, hread, hrows, htyped⟩ := h.read
  refine ⟨objects, fun other => ⟨fun hother => hother.unique hread, ?_⟩, hrows,
    listResponse_typed htyped,
    fun object hobject => (objectFields_typed (htyped object hobject)).2⟩
  rintro rfl
  exact hread

theorem lists_taken_sample :
    ∃ objects, (∀ other, ReadsArray (App.answersToJson false App.shownAnswers) other ↔
      other = objects) ∧
      List.Forall₂ (List.Forall₂ ReadsMember) (App.shownAnswers.map (answerMembers false)) objects ∧
      listResponse (some (objects.map some)) ownAnswerFields =
      .ok (objects.map (project ownAnswerFields)) ∧
      ∀ object ∈ objects, (project ownAnswerFields object).map Prod.fst =
      ownAnswerFields.map Prod.fst :=
  lists_taken (.ownAnswers App.shownAnswers_wellFormed)

end Client

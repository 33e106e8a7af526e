import CtfServer.App.Scores
import CtfServer.Client.Responses

/-!
# The ranking that is shown

The server ranks the users (score.c) and writes them; the page reads the list and sorts it once more
(ranking-page.ts), by another comparison.

* `sortUsers`       the sort of the page; `localeCompare` is that of the browser;
* `Collates`        what is relied on of it: an order, that of the characters on ids;
* `UserItem`        a user, in the list of the page;
* `ranking_shown`   **the page shows the ranking of the server**, in whatever order the list
                    arrives.
-/

set_option linter.unusedVariables false
set_option linter.unusedSimpArgs false

namespace Client

open Json App
open JsString (units ofAscii unit_toNat ofAscii_lt)

/-! ## the page -/

/-- `user.score` -/
def scoreOf (user : JsObject) : Option Nat :=
  match user.get (js "score") with
  | some (.number n) => some n
  | _ => none

/-- `user.id ?? ''` -/
def idOf (user : JsObject) : JsString :=
  match user.get (js "id") with
  | some (.string s) => s
  | _ => []

/-- the comparison in `sortUsers` -/
def compareUsers (localeCompare : JsString → JsString → Int) (a b : JsObject) : Int :=
  match scoreOf a, scoreOf b with
  | none, none => localeCompare (idOf a) (idOf b)
  | none, some _ => 1
  | some _, none => -1
  | some x, some y => if (y : Int) - x ≠ 0 then y - x else localeCompare (idOf a) (idOf b)

/-- `Array.prototype.sort` is stable -/
def sortUsers (localeCompare : JsString → JsString → Int) (users : List JsObject) : List JsObject :=
  users.mergeSort fun a b => decide (compareUsers localeCompare a b ≤ 0)

/-- a digit or one of `a` to `f` -/
def isHexUnit (u : UInt16) : Bool :=
  (48 ≤ u.toNat && u.toNat ≤ 57) || (97 ≤ u.toNat && u.toNat ≤ 102)

/-- `localeCompare` is a consistent comparison, and it puts ids in the order of their characters:
digits before letters -/
structure Collates (localeCompare : JsString → JsString → Int) : Prop where
  total : ∀ s t, localeCompare s t ≤ 0 ∨ localeCompare t s ≤ 0
  trans : ∀ r s t, localeCompare r s ≤ 0 → localeCompare s t ≤ 0 → localeCompare r t ≤ 0
  ids : ∀ s t : JsString, s.all isHexUnit = true → t.all isHexUnit = true → s < t →
    0 < localeCompare t s

/-! ## the order of the page -/

/-- the test of the sort -/
abbrev comesFirst (localeCompare : JsString → JsString → Int) (a b : JsObject) : Bool :=
  decide (compareUsers localeCompare a b ≤ 0)

/-- no score, or one that is not above `score` -/
def AtMost (score : Nat) : Option Nat → Prop
  | none => True
  | some x => x ≤ score

section
variable {localeCompare : JsString → JsString → Int}

theorem comesFirst_iff (a b : JsObject) : comesFirst localeCompare a b = true ↔
    (scoreOf a = scoreOf b ∧ localeCompare (idOf a) (idOf b) ≤ 0) ∨
      ∃ x, scoreOf a = some x ∧ scoreOf b ≠ some x ∧ AtMost x (scoreOf b) := by
  rw [comesFirst, decide_eq_true_eq, compareUsers]
  cases scoreOf a with
  | none =>
    cases scoreOf b with
    | none => simp
    | some y => simp
  | some x =>
    cases scoreOf b with
    | none => simp [AtMost]
    | some y =>
      by_cases hxy : x = y
      · simp [hxy]
      · have hne : (y : Int) - x ≠ 0 := by omega
        simp only [hne, AtMost, ne_eq, not_false_eq_true, if_true, Option.some.injEq,
          exists_eq_left', hxy, false_and,
          false_or, eq_comm (a := y), true_and]
        omega

theorem comesFirst_trans (h : Collates localeCompare) (a b c : JsObject)
    (hab : comesFirst localeCompare a b = true)
    (hbc : comesFirst localeCompare b c = true) : comesFirst localeCompare a c = true := by
  rw [comesFirst_iff] at *
  rcases hab with ⟨hab, hab'⟩ | ⟨x, hx, hb, hab⟩
  · rcases hbc with ⟨hbc, hbc'⟩ | ⟨y, hy, hc, hbc⟩
    · exact .inl ⟨hab.trans hbc, h.trans _ _ _ hab' hbc'⟩
    · exact .inr ⟨y, hab.trans hy, hc, hbc⟩
  · rcases hbc with ⟨hbc, hbc'⟩ | ⟨y, hy, hc, hbc⟩
    · exact .inr ⟨x, hx, hbc ▸ hb, hbc ▸ hab⟩
    · refine .inr ⟨x, hx, ?_⟩
      rw [hy] at hb hab
      have hyx : y ≤ x := hab
      have hne : y ≠ x := fun heq => hb (congrArg some heq)
      cases hz : scoreOf c with
      | none => exact ⟨(Option.some_ne_none x).symm, trivial⟩
      | some z =>
        rw [hz] at hc hbc
        have hzy : z ≤ y := hbc
        have hzx : z < x := by omega
        exact ⟨fun heq => by cases heq; omega, Nat.le_of_lt hzx⟩

theorem comesFirst_total (h : Collates localeCompare) (a b : JsObject) :
    (comesFirst localeCompare a b || comesFirst localeCompare b a) = true := by
  rw [Bool.or_eq_true, comesFirst_iff, comesFirst_iff]
  by_cases hab : scoreOf a = scoreOf b
  · exact (h.total (idOf a) (idOf b)).imp (fun hle => .inl ⟨hab, hle⟩) fun hle =>
      .inl ⟨hab.symm, hle⟩
  cases ha : scoreOf a with
  | none =>
    cases hb : scoreOf b with
    | none => exact absurd (ha.trans hb.symm) hab
    | some y => exact .inr (.inr ⟨y, rfl, by simp, trivial⟩)
  | some x =>
    cases hb : scoreOf b with
    | none => exact .inl (.inr ⟨x, rfl, by simp, trivial⟩)
    | some y =>
      have hxy : x ≠ y := fun heq => hab (by rw [ha, hb, heq])
      rcases Nat.le_total x y with hle | hle
      · exact .inr (.inr ⟨y, rfl, by simpa using hxy, hle⟩)
      · exact .inl (.inr ⟨x, rfl, by simpa using hxy.symm, hle⟩)

/-- **A list in strict order is the sort of all its rearrangements.** -/
theorem sortUsers_perm (h : Collates localeCompare) {items shown : List JsObject}
    (hstrict : items.Pairwise fun a b => comesFirst localeCompare b a = false)
    (hperm : shown.Perm items) :
    sortUsers localeCompare shown = items := by
  have hsorted : (sortUsers localeCompare shown).Pairwise fun a b => comesFirst localeCompare
    a b = true :=
    List.pairwise_mergeSort (comesFirst_trans h) (comesFirst_total h) shown
  have hitems : items.Pairwise fun a b => comesFirst localeCompare a b = true := by
    refine hstrict.imp fun {a b} hba => ?_
    have htotal := comesFirst_total h a b
    rwa [hba, Bool.or_false] at htotal
  have hsymm : Std.Symm fun a b : JsObject =>
      comesFirst localeCompare a b = false ∨ comesFirst localeCompare b a = false :=
        ⟨fun a b => Or.symm⟩
  have hone : items.Pairwise fun a b => comesFirst localeCompare a b = false ∨
    comesFirst localeCompare b a = false :=
    hstrict.imp Or.inr
  have hall : (sortUsers localeCompare shown).Perm items := (List.mergeSort_perm _ _).trans hperm
  refine hall.eq_of_pairwise ?_ hsorted hitems
  intro a b ha hb hab hba
  by_contra hne
  have hnot := hone.forall (hall.mem_iff.mp ha) hb hne
  rw [hab, hba] at hnot
  exact hnot.elim Bool.noConfusion Bool.noConfusion

end

/-! ## ASCII texts in a body -/

theorem parsesTo_ascii {text : Bytes} (h : PlainText text) : ParsesTo text (ofAscii text) := by
  induction text with
  | nil => exact .nil
  | cons c text ih =>
    obtain ⟨hc, htext⟩ := List.forall_mem_cons.mp h
    simp only [UInt8.lt_iff_toNat_lt, UInt8.le_iff_toNat_le, not_lt, not_le] at hc
    obtain ⟨h1, h2, h3, h4⟩ := hc
    have h1 : 32 ≤ c.toNat := h1
    have h2 : c.toNat < 128 := h2
    have hval : (Char.ofNat c.toNat).val.toNat = c.toNat := JsString.char_ofNat (.inl (by omega))
    have hne : ∀ d : Char, c.toNat ≠ d.val.toNat → Char.ofNat c.toNat ≠ d := by
      rintro d hd rfl
      exact hd hval.symm
    have hpiece := PieceUnits.unescaped (Char.ofNat c.toNat) (by omega)
      (hne '"' fun heq => h3 (UInt8.toNat_inj.mp heq))
      (hne '\\' fun heq => h4 (UInt8.toNat_inj.mp heq))
    have hbytes : String.utf8EncodeChar (Char.ofNat c.toNat) = [c] := by
      rw [char_ascii (by omega), hval, UInt8.ofNat_toNat]
    have hunits : JsString.unitsOf (Char.ofNat c.toNat) = [UInt16.ofNat c.toNat] := by
      unfold JsString.unitsOf
      rw [hval, if_pos (by omega)]
    rw [hbytes, hunits] at hpiece
    exact .cons hpiece (ih htext)

theorem plain_id {id : Bytes} (h : validId id = true) : PlainText id := by
  unfold validId at h
  rw [Bool.and_eq_true, List.all_eq_true] at h
  intro c hc
  have hbyte := h.2 c hc
  simp only [isIdByte, Bool.or_eq_true, Bool.and_eq_true, decide_eq_true_eq,
    UInt8.le_iff_toNat_le] at hbyte
  simp only [UInt8.lt_iff_toNat_lt, UInt8.le_iff_toNat_le, ne_eq, UInt8.ext_iff]
  show ¬ c.toNat < 32 ∧ ¬ 128 ≤ c.toNat ∧ ¬ c.toNat = 34 ∧ ¬ c.toNat = 92
  have hbyte : 48 ≤ c.toNat ∧ c.toNat ≤ 57 ∨ 97 ≤ c.toNat ∧ c.toNat ≤ 102 := hbyte
  omega

theorem hex_id {id : Bytes} (h : validId id = true) : (ofAscii id).all isHexUnit = true := by
  unfold validId at h
  rw [Bool.and_eq_true, List.all_eq_true] at h
  rw [List.all_eq_true]
  intro u hu
  obtain ⟨c, hc, rfl⟩ := List.mem_map.mp hu
  have hbyte := h.2 c hc
  simp only [isIdByte, Bool.or_eq_true, Bool.and_eq_true, decide_eq_true_eq,
    UInt8.le_iff_toNat_le] at hbyte
  simp only [isHexUnit, unit_toNat, Bool.or_eq_true, Bool.and_eq_true, decide_eq_true_eq]
  exact hbyte

/-! ## the items -/

/-- the item of a user in the list of the page -/
structure UserItem (user : PublicUser) (item : JsObject) : Prop where
  id : item.get (js "id") = some (.string (ofAscii user.id))
  username : item.get (js "username") = some (.string (ofAscii user.username))
  score : item.get (js "score") = some (.number user.score.toNat)

theorem userItem_members {user : PublicUser} {object : JsObject}
    (h : List.Forall₂ ReadsMember (userMembers user) object)
    (hnodup : (object.map Prod.fst).Nodup) (hwf : user.WellFormed) (hscore : 0 ≤ user.score) :
    UserItem user (project userFields object) := by
  have hkeys := parsesTo_keys
  simp only [List.forall_mem_cons] at hkeys
  obtain ⟨kid, -, -, -, -, -, -, kname, -, -, -, kscore, -⟩ := hkeys
  have hproperty : ∀ (key : String) {v : Bytes}, (ascii key, v) ∈ userMembers user →
    ParsesTo (ascii key) (js key) →
      js key ∈ userFields.map Prod.fst → ∃ value, ReadsValue v value ∧
      (project userFields object).get (js key) = some value := by
    intro key v hmem hkey hfield
    obtain ⟨⟨key', value⟩, hobject, hk, hv⟩ := forall₂_mem_left h hmem
    obtain rfl : key' = js key := hk.unique hkey
    exact ⟨value, hv, by rw [get_project hfield, get_mem hnodup hobject]⟩
  have hstring : ∀ (key : String) {f : Bytes}, (ascii key, quote f) ∈ userMembers user →
    ParsesTo (ascii key) (js key) →
      js key ∈ userFields.map Prod.fst → PlainText f → (project userFields object).get (js key) =
      some (.string (ofAscii f)) := by
    intro key f hmem hkey hfield hplain
    obtain ⟨value, hv, hget⟩ := hproperty key hmem hkey hfield
    obtain ⟨s, hs, rfl⟩ := hv.of_quote
    rw [hget, hs.unique (parsesTo_ascii hplain)]
  refine ⟨hstring "id" (by simp [userMembers]) kid (by decide) (plain_id hwf.id),
    hstring "username" (by simp [userMembers]) kname (by decide) (plain_username hwf.username), ?_⟩
  obtain ⟨m, hm⟩ := Int.eq_ofNat_of_zero_le hscore
  obtain ⟨value, hv, hget⟩ := hproperty "score" (v := intText user.score) (by simp [userMembers])
    kscore (by decide)
  rw [hm, intText_nat] at hv
  rw [hget, hv.of_digits, hm]
  rfl

theorem items_of_users {users : List PublicUser} {objects : List JsObject}
    (hwf : ∀ user ∈ users, user.WellFormed ∧ 0 ≤ user.score)
    (h : List.Forall₂ (List.Forall₂ ReadsMember) (users.map userMembers) objects)
    (hnodup : ∀ object ∈ objects, (object.map Prod.fst).Nodup) :
    List.Forall₂ UserItem users (objects.map (project userFields)) := by
  induction users generalizing objects with
  | nil =>
    cases h
    exact .nil
  | cons user users ih =>
    obtain ⟨hwf1, hwf2⟩ := List.forall_mem_cons.mp hwf
    obtain ⟨object, rest, hobject, hrest, rfl⟩ := List.forall₂_cons_left_iff.mp h
    obtain ⟨hnodup1, hnodup2⟩ := List.forall_mem_cons.mp hnodup
    exact .cons (userItem_members hobject hnodup1 hwf1.1 hwf1.2) (ih hwf2 hrest hnodup2)

/-- items of users in the order of the server are in the order of the page -/
theorem UserItem.after {localeCompare : JsString → JsString → Int} (h : Collates localeCompare)
    {a b : PublicUser}
    {x y : JsObject} (hx : UserItem a x) (hy : UserItem b y) (ha : a.WellFormed ∧ 0 ≤ a.score)
    (hb : b.WellFormed ∧ 0 ≤ b.score)
    (hab : b.score < a.score ∨ a.score = b.score ∧ a.id < b.id) :
    comesFirst localeCompare y x = false := by
  have hscores : scoreOf x = some a.score.toNat ∧ scoreOf y = some b.score.toNat := by
    unfold scoreOf
    rw [hx.score, hy.score]
    exact ⟨rfl, rfl⟩
  have hids : idOf x = ofAscii a.id ∧ idOf y = ofAscii b.id := by
    unfold idOf
    rw [hx.id, hy.id]
    exact ⟨rfl, rfl⟩
  rw [comesFirst, decide_eq_false_iff_not, compareUsers, hscores.1, hscores.2, hids.1, hids.2]
  dsimp only
  rcases hab with hlt | ⟨heq, hlt⟩
  · rw [if_pos (by omega)]
    omega
  · rw [if_neg (by omega)]
    have hcompare := h.ids _ _ (hex_id ha.1.id) (hex_id hb.1.id) (ofAscii_lt hlt)
    omega

theorem pairwise_items {R : PublicUser → PublicUser → Prop} {S : JsObject → JsObject → Prop}
    {users : List PublicUser}
    {items : List JsObject} (h : List.Forall₂ UserItem users items) (hpair : users.Pairwise R)
    (hS : ∀ a ∈ users, ∀ b ∈ users, ∀ x y, UserItem a x → UserItem b y → R a b → S x y) :
    items.Pairwise S := by
  induction h with
  | nil => exact .nil
  | @cons a x users items hx hrest ih =>
    obtain ⟨hhead, htail⟩ := List.pairwise_cons.mp hpair
    refine .cons (fun y hy => ?_) (ih htail fun a ha b hb => hS a (.tail _ ha) b (.tail _ hb))
    obtain ⟨b, hb, hitem⟩ := forall₂_mem_left hrest.flip hy
    exact hS a List.mem_cons_self b (.tail _ hb) x y hx hitem (hhead b hb)

/-! ## what the rows promise -/

theorem bound_users {mem : Bool} {result : App.DbResult} {users : List PublicUser}
    (h : bindPublicUsers mem result = some users) :
    ∀ user ∈ users, user.WellFormed := by
  obtain ⟨res, -, -, hmap⟩ := bindRows_some h
  intro user hu
  obtain ⟨values, -, hbind⟩ := Readers.mem_of_mapM hmap hu
  unfold bindPublicUser at hbind
  split at hbind
  · split_ifs at hbind with hvalid
    cases hbind
    rw [Bool.and_eq_true] at hvalid
    exact ⟨hvalid.1, hvalid.2⟩
  · cases hbind

theorem bound_scores {mem : Bool} {result : App.DbResult} {answers : List ScoreAnswer}
    (h : bindScoreAnswers mem result = some answers) :
    ∀ answer ∈ answers, 1 ≤ answer.challengeId ∧ answer.challengeId ≤ INT_MAX := by
  obtain ⟨res, -, -, hmap⟩ := bindRows_some h
  intro answer ha
  obtain ⟨values, -, hbind⟩ := Readers.mem_of_mapM hmap ha
  unfold bindScoreAnswer at hbind
  split at hbind
  · split at hbind
    · split_ifs at hbind with hrange
      cases hbind
      dsimp only
      omega
    · cases hbind
  · cases hbind

/-- the challenges have ids of 31 bits, so that a double holds every score -/
theorem withScore_double {ended : ScoreAnswer → Bool} {answers : List ScoreAnswer}
    (user : PublicUser)
    (h : ∀ answer ∈ answers, 1 ≤ answer.challengeId ∧ answer.challengeId ≤ INT_MAX) :
    0 ≤ (withScore ended answers user).score ∧ (withScore ended answers user).score ≤ 2^53 := by
  have hsub : solved ended user.id answers ⊆ Finset.Icc 1 INT_MAX := by
    intro n hn
    obtain ⟨answer, hanswer, -, -, rfl⟩ := mem_solved.mp hn
    exact Finset.mem_Icc.mpr (h answer hanswer)
  have hcard := Finset.card_le_card hsub
  rw [Nat.card_Icc] at hcard
  have hmax : INT_MAX + 1 - 1 = 2147483647 := rfl
  show (0 : Int) ≤ 100 * (solved ended user.id answers).card ∧
    100 * ((solved ended user.id answers).card : Int) ≤ 2^53
  omega

/-! ## the ranking -/

section
variable {m1 m2 : Bool} {r1 r2 : App.DbResult} {users : List PublicUser}
  {answers : List ScoreAnswer}

/-- the list of `GET /users`, from the rows of its two statements -/
theorem ranking_bound (husers : bindPublicUsers m1 r1 = some users)
    (hanswers : bindScoreAnswers m2 r2 = some answers)
    (hids : (users.map (·.id)).Nodup) (endEnabled : Bool) (endAt : Int) :
    Ranked (calculateUserScores users answers endEnabled endAt) ∧
      ∀ user ∈ calculateUserScores users answers endEnabled endAt, user.WellFormed ∧
      0 ≤ user.score ∧ user.score ≤ 2^53 := by
  have hbound := bound_scores hanswers
  obtain ⟨hperm, hranked⟩ := calculateUserScoresBy_spec .merge users answers endEnabled endAt hids
    fun answer hanswer => (hbound answer hanswer).1
  rw [← calculateUserScores_merge] at hperm hranked
  refine ⟨hranked, fun user hu => ?_⟩
  obtain ⟨row, hrow, rfl⟩ := List.mem_map.mp (hperm.mem_iff.mp hu)
  exact ⟨⟨(bound_users husers row hrow).id, (bound_users husers row hrow).username⟩,
    withScore_double row hbound⟩

/-- **The page shows the ranking of the server.** Whatever rows the two statements of `GET /users`
return, with distinct ids, and whichever consistent comparison the browser has: the body has one
reading, the client takes it, has one item for each user, with the id, the name and the score, and
lists them by score and then id, as the server does; and it would do so in whatever order the server
had written them. -/
theorem ranking_shown {localeCompare : JsString → JsString → Int} (hlocale : Collates localeCompare)
    (husers : bindPublicUsers m1 r1 = some users) (hanswers : bindScoreAnswers m2 r2 = some answers)
    (hids : (users.map (·.id)).Nodup) (endEnabled : Bool) (endAt : Int) :
    ∃ objects items,
      (∀ objects', ReadsArray (publicUsersToJson
        (calculateUserScores users answers endEnabled endAt)) objects' ↔ objects' = objects) ∧
      listResponse (some (objects.map some)) userFields = .ok items ∧
      List.Forall₂ UserItem (calculateUserScores users answers endEnabled endAt)
        (sortUsers localeCompare items) ∧
      ∀ shown : List JsObject, shown.Perm items → sortUsers localeCompare shown = items := by
  obtain ⟨hranked, hwf⟩ := ranking_bound husers hanswers hids endEnabled endAt
  obtain ⟨objects, hread, hrows, htyped⟩ := (ServerList.users hwf).read
  have hnodup : ∀ object ∈ objects, (object.map Prod.fst).Nodup := by
    obtain ⟨vs, -, hobjects⟩ := hread
    intro object hobject
    obtain ⟨v, -, ps, -, hkeys, -⟩ := forall₂_mem_left hobjects.flip hobject
    exact hkeys
  have hsome : ∀ user ∈ calculateUserScores users answers endEnabled endAt, user.WellFormed ∧
    0 ≤ user.score :=
    fun user hu => ⟨(hwf user hu).1, (hwf user hu).2.1⟩
  have hitems := items_of_users hsome hrows hnodup
  have hstrict := pairwise_items hitems hranked fun a ha b hb x y hx hy =>
    UserItem.after hlocale hx hy (hsome a ha) (hsome b hb)
  refine ⟨objects, _, fun objects' => ⟨fun h => h.unique hread, fun h => h ▸ hread⟩,
    listResponse_typed htyped, ?_, fun shown hshown => sortUsers_perm hlocale hstrict hshown⟩
  rw [sortUsers_perm hlocale hstrict (List.Perm.refl _)]
  exact hitems

end

/-- the order of the characters, as a comparison -/
def plainCompare (s t : JsString) : Int := if s ≤ t then (if t ≤ s then 0 else -1) else 1

theorem plainCompare_iff (s t : JsString) : plainCompare s t ≤ 0 ↔ s ≤ t := by
  unfold plainCompare
  split_ifs with h1 h2
  · simp [h1]
  · simp [h1]
  · simp [h1]

theorem plainCompare_collates : Collates plainCompare where
  total s t := by
    rw [plainCompare_iff, plainCompare_iff]
    exact List.le_total s t
  trans r s t := by
    rw [plainCompare_iff, plainCompare_iff, plainCompare_iff]
    exact List.le_trans
  ids s t _ _ hlt := by
    rw [← not_le, plainCompare_iff]
    exact fun hle => List.not_lt.mpr hle hlt

def shownUsers : App.DbResult :=
  { success := true
    res := some ⟨2, [[some (List.replicate 32 97), some (ascii "alice")],
      [some (List.replicate 32 98), some (ascii "bob")]], by decide⟩ }

/-- one answer of `bob` -/
def shownScores : App.DbResult :=
  { success := true, res :=
    some ⟨3, [[some (List.replicate 32 98), some (ascii "4"), some (ascii "1000")]], by decide⟩ }

theorem ranking_shown_sample : ∃ objects items,
    ReadsArray (publicUsersToJson [⟨List.replicate 32 98, ascii "bob", 100⟩,
      ⟨List.replicate 32 97, ascii "alice", 0⟩]) objects ∧
      listResponse (some (objects.map some)) userFields = .ok items ∧
      List.Forall₂ UserItem [⟨List.replicate 32 98, ascii "bob", 100⟩,
        ⟨List.replicate 32 97, ascii "alice", 0⟩]
        (sortUsers plainCompare items) ∧
      ∀ shown : List JsObject, shown.Perm items → sortUsers plainCompare shown = items := by
  have husers : bindPublicUsers true shownUsers =
      some [⟨List.replicate 32 97, ascii "alice", 0⟩,
        ⟨List.replicate 32 98, ascii "bob", 0⟩] := by decide
  have hanswers : bindScoreAnswers true shownScores =
    some [⟨List.replicate 32 98, 4, 1000⟩] := by decide
  have hlist : calculateUserScores [⟨List.replicate 32 97, ascii "alice", 0⟩,
    ⟨List.replicate 32 98, ascii "bob", 0⟩]
      [⟨List.replicate 32 98, 4, 1000⟩] false 0 =
        [⟨List.replicate 32 98, ascii "bob", 100⟩, ⟨List.replicate 32 97, ascii "alice", 0⟩] := by
    obtain ⟨hperm, hranked⟩ := calculateUserScoresBy_spec .merge
      [⟨List.replicate 32 97, ascii "alice", 0⟩, ⟨List.replicate 32 98, ascii "bob", 0⟩]
      [⟨List.replicate 32 98, 4, 1000⟩]
      false 0 (by decide) (by decide)
    rw [← calculateUserScores_merge] at hperm hranked
    exact hranked.unique (by unfold Ranked; decide) (hperm.trans (by decide))
  obtain ⟨objects, items, hread, hitems⟩ :=
    ranking_shown plainCompare_collates husers hanswers (by decide) false 0
  rw [hlist] at hread hitems
  exact ⟨objects, items, (hread objects).mpr rfl, hitems⟩

end Client

import CtfServer.Json.Stringify
import CtfServer.Json.Solvable
import CtfServer.Client.Responses

/-!
# What is typed into the forms

The checks of the pages (`credentialsError`, `EditorPage.save`, `DetailPage.submit`), the bodies
that `HttpClient.request` sends for them, and what the readers of the server make of these.

* `credentialsError`, `credentialsBody`   the form of the login and the signup;
* `EditorForm.ofItems`, `EditorForm.save`   the form of a challenge, as it is loaded and as it is
                                            saved;
* `credentials_agree`   the page and the server **take the same credentials**, but for a password
                        that is no text;
* `edit_unchanged`      a challenge that is opened and saved **stays what it was**;
* `flag_typed`          the **one text that solves** a challenge is its flag.
-/

set_option linter.unusedVariables false
set_option linter.unusedSimpArgs false

namespace Client

open Json
open App (objectText membersText_members)
open JsString (WellFormed codePoints textEncode trim isHigh isLow)

/-! ## credentials -/

/-- the class of `/[^A-Za-z0-9_-]/`, complemented -/
def isUsernameUnit (u : UInt16) : Bool :=
  (65 ≤ u.toNat && u.toNat ≤ 90) || (97 ≤ u.toNat && u.toNat ≤ 122) ||
    (48 ≤ u.toNat && u.toNat ≤ 57) ||
    u.toNat == 95 || u.toNat == 45

def credentialsError (username password : JsString) : String :=
  if username.length < 3 || username.length > 32 || username.any (fun u => !isUsernameUnit u) then
    "ユーザー名は半角英数字・ハイフン・アンダースコアで3〜32文字にしてください。"
  else
    let bytes := (textEncode password).length
    if password.any (· == 0) || bytes < 8 || bytes > 128 then
      "パスワードはUTF-8で8〜128バイトにしてください。NUL文字は使用できません。"
    else ""

/-- the body of `login` and of `signup` -/
def credentialsBody (username password : JsString) : Bytes :=
  objectText [(ascii "username", quote (stringify username)),
    (ascii "password", quote (stringify password))]

theorem credentialsError_iff (username password : JsString) :
    credentialsError username password = "" ↔
    (3 ≤ username.length ∧ username.length ≤ 32) ∧ (∀ u ∈ username, isUsernameUnit u = true) ∧
      (0 : UInt16) ∉ password ∧ 8 ≤ (textEncode password).length ∧
      (textEncode password).length ≤ 128 := by
  unfold credentialsError
  have husername : ¬ ("ユーザー名は半角英数字・ハイフン・アンダースコアで3〜32文字にしてください。" = "") := by decide
  have hpassword : ¬ ("パスワードはUTF-8で8〜128バイトにしてください。NUL文字は使用できません。" = "") := by decide
  have hnul : password.any (· == 0) = true ↔ (0 : UInt16) ∈ password := by simp
  have hclass : username.any (fun u => !isUsernameUnit u) = true ↔ ¬ ∀ u ∈ username,
    isUsernameUnit u = true := by simp
  dsimp only
  split
  · next h =>
    rw [Bool.or_eq_true, Bool.or_eq_true, decide_eq_true_eq, decide_eq_true_eq, hclass] at h
    constructor
    · exact fun heq => absurd heq husername
    · rintro ⟨h1, h2, -⟩
      rcases h with (h | h) | h
      · omega
      · omega
      · exact absurd h2 h
  · next h =>
    rw [Bool.or_eq_true, Bool.or_eq_true, decide_eq_true_eq, decide_eq_true_eq, hclass, not_or,
      not_or, not_not] at h
    split
    · next h' =>
      rw [Bool.or_eq_true, Bool.or_eq_true, decide_eq_true_eq, decide_eq_true_eq, hnul] at h'
      constructor
      · exact fun heq => absurd heq hpassword
      · rintro ⟨-, -, h3, h4⟩
        rcases h' with (h' | h') | h'
        · exact absurd h' h3
        · omega
        · omega
    · next h' =>
      rw [Bool.or_eq_true, Bool.or_eq_true, decide_eq_true_eq, decide_eq_true_eq, hnul, not_or,
        not_or] at h'
      exact iff_of_true rfl ⟨by omega, h.2, h'.1.1, by omega, by omega⟩

/-! ### the alphabet of usernames, in units and in characters -/

theorem usernameUnit_single {u : UInt16} (h : isUsernameUnit u = true) :
    (isHigh u || isLow u) = false := by
  rw [← Bool.not_eq_true, surrogate_iff]
  unfold isUsernameUnit at h
  simp only [Bool.or_eq_true, Bool.and_eq_true, decide_eq_true_eq, beq_iff_eq] at h
  omega

theorem usernameUnit_char {u : UInt16} {ch : Char} (hu : u.toNat = ch.val.toNat) :
    isUsernameUnit u = true ↔ UsernameChar ch := by
  rw [usernameChar_iff, ← hu]
  unfold isUsernameUnit
  simp only [Bool.or_eq_true, Bool.and_eq_true, decide_eq_true_eq, beq_iff_eq]
  omega

/-- a username is a text of its characters, one unit each -/
theorem username_units {s : JsString} (h : ∀ u ∈ s, isUsernameUnit u = true) :
    WellFormed s ∧ (JsString.chars s).length = s.length ∧ ∀ ch ∈ JsString.chars s,
    UsernameChar ch := by
  have hpoints := JsString.codePoints_plain fun u hu => usernameUnit_single (h u hu)
  have hchars : JsString.chars s = s.map fun u => Char.ofNat u.toNat := by
    unfold JsString.chars
    rw [hpoints, List.filterMap_map]
    exact congrFun (List.filterMap_eq_map (f := fun u : UInt16 => Char.ofNat u.toNat)) s
  refine ⟨?_, by rw [hchars, List.length_map], ?_⟩
  · intro p hp
    rw [hpoints, List.mem_map] at hp
    obtain ⟨u, -, rfl⟩ := hp
    exact ⟨_, rfl⟩
  · rw [hchars]
    intro ch hch
    obtain ⟨u, hu, rfl⟩ := List.mem_map.mp hch
    exact (usernameUnit_char (JsString.single_val (usernameUnit_single (h u hu))).symm).mp (h u hu)

/-- and the other way around -/
theorem units_username {chs : List Char} (h : ∀ ch ∈ chs, UsernameChar ch) :
    (JsString.units chs).length = chs.length ∧ ∀ u ∈ JsString.units chs,
    isUsernameUnit u = true := by
  induction chs with
  | nil => exact ⟨rfl, List.forall_mem_nil _⟩
  | cons ch chs ih =>
    obtain ⟨hch, hchs⟩ := List.forall_mem_cons.mp h
    obtain ⟨hlen, hall⟩ := ih hchs
    have hlow := (usernameChar_iff ch).mp hch
    have hunits : JsString.units (ch :: chs) = UInt16.ofNat ch.val.toNat :: JsString.units chs := by
      show JsString.unitsOf ch ++ JsString.units chs = _
      rw [unitsOf_low (by omega)]
      rfl
    have hval : (UInt16.ofNat ch.val.toNat).toNat = ch.val.toNat := by
      rw [UInt16.toNat_ofNat']
      omega
    rw [hunits]
    exact ⟨by rw [List.length_cons, hlen, List.length_cons], List.forall_mem_cons.mpr
      ⟨(usernameUnit_char hval).mpr hch, hall⟩⟩

/-! ### NUL -/

theorem nul_encode (chs : List Char) : (0 : UInt8) ∈ encode chs ↔ Char.ofNat 0 ∈ chs := by
  have hone : ∀ ch : Char, (0 : UInt8) ∈ String.utf8EncodeChar ch ↔ ch = Char.ofNat 0 := by
    intro ch
    constructor
    · intro h
      by_cases hlow : ch.val.toNat ≤ 0x7f
      · rw [char_ascii hlow, List.mem_singleton] at h
        have hval := congrArg UInt8.toNat h
        rw [UInt8.toNat_ofNat'] at hval
        have hzero : ch.val.toNat = 0 := by
          have hz : UInt8.toNat 0 = 0 := rfl
          omega
        exact Char.toNat_inj.mp hzero
      · cases heq : String.utf8EncodeChar ch with
        | nil => exact absurd heq (by simp)
        | cons c cs =>
          obtain ⟨hc, hutf8⟩ := strUtf8_encode (by omega) heq
          have hlit : Literal (c :: cs) := by simpa using Literal.cons (.utf8 c cs hc hutf8) .nil
          rw [heq] at h
          exact absurd (hlit.low 0 h) (by decide)
    · rintro rfl
      decide
  unfold encode
  rw [List.mem_flatMap]
  constructor
  · rintro ⟨ch, hch, h⟩
    rwa [← (hone ch).mp h]
  · intro h
    exact ⟨_, h, (hone _).mpr rfl⟩

theorem nul_units (chs : List Char) : (0 : UInt16) ∈ JsString.units chs ↔ Char.ofNat 0 ∈ chs := by
  unfold JsString.units
  rw [List.mem_flatMap]
  constructor
  · rintro ⟨ch, hch, h⟩
    have hval : ch.val.toNat = 0 := (JsString.mem_unitsOf_low h (by decide)).symm
    rwa [← (Char.toNat_inj.mp hval : ch = Char.ofNat 0)]
  · intro h
    exact ⟨_, h, by decide⟩

/-! ### the body -/

theorem stringify_length (s : JsString) : (stringify s).length ≤ 6 * (codePoints s).length := by
  unfold stringify
  generalize codePoints s = ps
  induction ps with
  | nil => exact le_rfl
  | cons p ps ih =>
    have hone : (quotePoint p).length ≤ 6 := by
      cases p with
      | scalar ch => exact quoteScalar_length ch
      | lone u => exact le_rfl
    rw [List.flatMap_cons, List.length_append, List.length_cons]
    omega

theorem chars_username : Chars (ascii "username") := denotes_username.chars

theorem chars_password : Chars (ascii "password") := denotes_password.chars

theorem stringValue_stringify (s : JsString) : StringValue (quote (stringify s)) :=
  ⟨_, (parsesTo_stringify s).body, rfl⟩

/-- what the reader of the fields finds in the body -/
theorem readObject_credentialsBody (username password : JsString) :
    readObject enoughMemory readAuthField {} (credentialsBody username password) =
      .ok (⟨stringify username, stringify password, 3⟩, []) := by
  have hvalues : ∀ p ∈ [(ascii "username", quote (stringify username)),
    (ascii "password", quote (stringify password))],
      Chars p.1 ∧ StringValue p.2 := by
    simp only [List.forall_mem_cons]
    exact ⟨⟨chars_username, stringValue_stringify username⟩,
      ⟨chars_password, stringValue_stringify password⟩,
      List.forall_mem_nil _⟩
  have hmembers := membersText_members (List.cons_ne_nil _ _) hvalues
  have h12 : (({} : AuthParser).fields ||| 1) &&& 2 = 0 := by decide
  have hst := Steps.cons (AuthField.username denotes_username
    (parsesTo_stringify username).body rfl)
    (.cons (.password denotes_password (parsesTo_stringify password).body h12) .nil)
  rw [show (({} : AuthParser).fields ||| 1) ||| 2 = 3 by decide] at hst
  have hread := readObject_complete readAuthField_complete (w := []) (List.forall_mem_nil _)
    (.inr hmembers)
    (by show [ascii "username", ascii "password"].Nodup; decide) hst []
  exact hread

theorem credentialsBody_length (username password : JsString) :
    (credentialsBody username password).length = 29 + (stringify username).length +
    (stringify password).length := by
  have hkeys : (ascii "username").length = 8 ∧ (ascii "password").length = 8 ∧
    ascii "," = [0x2c] := by decide
  unfold credentialsBody objectText App.membersText
  rw [hkeys.2.2]
  simp only [List.map_cons, List.map_nil, List.intercalate, List.intersperse, List.flatten_cons,
    List.flatten_nil,
    App.memberText, quote, List.length_cons, List.length_append, List.length_nil,
    hkeys.1, hkeys.2.1]
  omega

/-- what the server reads of a form is acceptable exactly when the page takes it -/
theorem acceptable_typed {username password : JsString} (hpassword : WellFormed password) :
    (WellFormed username ∧ Acceptable (JsString.chars username) (JsString.chars password)) ↔
      credentialsError username password = "" := by
  have hbytes : encode (JsString.chars password) = textEncode password :=
    (JsString.textEncode_chars hpassword).symm
  have hnul : (0 : UInt8) ∉ encode (JsString.chars password) ↔ (0 : UInt16) ∉ password := by
    rw [nul_encode, ← nul_units, JsString.units_chars hpassword]
  rw [credentialsError_iff]
  constructor
  · rintro ⟨husername, hacc⟩
    obtain ⟨hlen, hclass⟩ := units_username hacc.usernameChars
    rw [JsString.units_chars husername] at hlen hclass
    refine ⟨?_, hclass, hnul.mp hacc.passwordNul, ?_⟩
    · rw [hlen]
      exact hacc.usernameLength
    · rw [← hbytes]
      exact hacc.passwordLength
  · rintro ⟨hlen, hclass, hzero, hlength⟩
    obtain ⟨husername, hcount, hchars⟩ := username_units hclass
    refine ⟨husername, ⟨?_, hchars, ?_, hnul.mpr hzero⟩⟩
    · rw [hcount]
      exact hlen
    · rw [hbytes]
      exact hlength

/-- what the page takes is short -/
theorem credentialsBody_short {username password : JsString}
    (h : credentialsError username password = "") :
    (credentialsBody username password).length < 65536 := by
  obtain ⟨hlen, hclass, -, hbytes⟩ := (credentialsError_iff username password).mp h
  have hpoints : (codePoints username).length = username.length := by
    rw [JsString.codePoints_plain fun u hu => usernameUnit_single (hclass u hu), List.length_map]
  have h1 := stringify_length username
  have h2 := stringify_length password
  have h3 := JsString.codePoints_length_le password
  rw [credentialsBody_length]
  omega

/-- **The page and the server take the same credentials**, as the same bytes, but for a password
with a surrogate that stands alone: the page counts U+FFFD for it, the server refuses it. -/
theorem credentials_agree (username password : JsString) (request : AuthRequest) :
    jsonToAuthRequest enoughMemory true true (credentialsBody username password) = .ok request ↔
      credentialsError username password = "" ∧ WellFormed password ∧
        request = ⟨textEncode username, textEncode password⟩ := by
  have hdenotes := fun chs => (parsesTo_stringify username).denotes_iff chs
  have hdenotes' := fun chs => (parsesTo_stringify password).denotes_iff chs
  rw [jsonToAuthRequest_iff]
  constructor
  · rintro ⟨-, u, p, hobject, hacc, rfl⟩
    obtain ⟨vu, vp, rest, hread, -, hu, hp⟩ := (authObject_read _ u p).mp hobject
    rw [readObject_credentialsBody, Except.ok.injEq, Prod.mk.injEq, AuthParser.mk.injEq] at hread
    obtain ⟨⟨rfl, rfl, -⟩, -⟩ := hread
    obtain ⟨husername, rfl⟩ := (hdenotes u).mp hu
    obtain ⟨hpassword, rfl⟩ := (hdenotes' p).mp hp
    refine ⟨(acceptable_typed hpassword).mp ⟨husername, hacc⟩, hpassword, ?_⟩
    rw [JsString.textEncode_chars husername, JsString.textEncode_chars hpassword]
    rfl
  · rintro ⟨herror, hpassword, rfl⟩
    obtain ⟨husername, hacc⟩ := (acceptable_typed hpassword).mpr herror
    refine ⟨credentialsBody_short herror, _, _, ?_, hacc, ?_⟩
    · exact (authObject_read _ _ _).mpr ⟨_, _, [], readObject_credentialsBody username password,
        List.forall_mem_nil _,
        (hdenotes _).mpr ⟨husername, rfl⟩, (hdenotes' _).mpr ⟨hpassword, rfl⟩⟩
    · rw [JsString.textEncode_chars husername, JsString.textEncode_chars hpassword]
      rfl

/-! ## challenges -/

/-- the values of `Genre` -/
def genres : List JsString :=
  [js "web", js "crypto", js "pwn", js "rev", js "forensics", js "osint", js "misc"]

/-- `Partial<ChallengeInput>` -/
structure EditorForm where
  name : Option JsString := none
  description : Option JsString := none
  genre : Option JsString := none
  flag : Option JsString := none
  deriving DecidableEq, Repr

/-- a property that is a string -/
def text (item : JsObject) (key : String) : Option JsString :=
  match item.get (js key) with
  | some (.string s) => some s
  | _ => none

namespace EditorForm

/-- what `refresh` makes of the challenges of the user -/
def ofItems (id : Nat) (items : List JsObject) : Except String EditorForm :=
  match items.find? fun item => decide (item.get (js "id") = some (.number id)) with
  | none => .error "編集できる問題が見つかりません。"
  | some item => .ok
    { name := text item "name", description := text item "description",
      genre := genres.find? fun genre => decide (some genre = text item "genre"), flag :=
      text item "flag" }

/-- the body of `saveChallenge` -/
def body (name description genre flag : JsString) : Bytes :=
  objectText [(ascii "name", quote (stringify name)),
    (ascii "description", quote (stringify description)),
    (ascii "genre", quote (stringify genre)), (ascii "flag", quote (stringify flag))]

def incomplete : String := "問題名・ジャンル・フラグを入力してください。"

/-- `save`, on a form that is ready; the body that is sent -/
def save (form : EditorForm) : Except String Bytes :=
  match form.name, form.genre, form.flag with
  | some name, some genre, some flag =>
    if (trim name).isEmpty || genre.isEmpty || !(genres.any fun g => decide (g = genre)) ||
      flag.isEmpty then .error incomplete
    else .ok (body name (form.description.getD []) genre flag)
  | _, _, _ => .error incomplete

end EditorForm

def genreText : CtfGenre → JsString
  | .web => js "web"
  | .crypto => js "crypto"
  | .pwn => js "pwn"
  | .rev => js "rev"
  | .forensics => js "forensics"
  | .osint => js "osint"
  | .misc => js "misc"

/-- the page and the server have the same genres -/
theorem genres_iff (genre : JsString) : genre ∈ genres ↔ ∃ g, genre = genreText g := by
  unfold genres
  simp only [List.mem_cons, List.not_mem_nil, or_false]
  constructor
  · rintro (h | h | h | h | h | h | h)
    · exact ⟨.web, h⟩
    · exact ⟨.crypto, h⟩
    · exact ⟨.pwn, h⟩
    · exact ⟨.rev, h⟩
    · exact ⟨.forensics, h⟩
    · exact ⟨.osint, h⟩
    · exact ⟨.misc, h⟩
  · rintro ⟨g, rfl⟩
    cases g <;> simp [genreText]

theorem stringify_genre (g : CtfGenre) : stringify (genreText g) = ctfGenreToString g := by
  cases g <;> decide +kernel

theorem parsesTo_genre (g : CtfGenre) : ParsesTo (ctfGenreToString g) (genreText g) := by
  have h := parsesTo_stringify (genreText g)
  rwa [stringify_genre] at h

/-- the request that a form asks for -/
def savedRequest (name description flag : JsString) (g : CtfGenre) : CreateChallengeRequest :=
  ⟨stringify name, stringify description, stringify flag, g⟩

/-- what the reader of the fields finds in the body -/
theorem readObject_body (name description flag : JsString) (g : CtfGenre) :
    readObject enoughMemory (readChallengeField enoughMemory) {}
    (EditorForm.body name description (genreText g) flag) =
      .ok (⟨savedRequest name description flag g, 15⟩, []) := by
  have hname := (parsesTo_stringify name).body
  have hdescription := (parsesTo_stringify description).body
  have hflag := (parsesTo_stringify flag).body
  have hkeys := parsesTo_keys
  simp only [List.forall_mem_cons] at hkeys
  obtain ⟨-, k2, k3, k4, -, k6, -⟩ := hkeys
  have hvalues : ∀ p ∈ [(ascii "name", quote (stringify name)),
    (ascii "description", quote (stringify description)),
      (ascii "genre", quote (ctfGenreToString g)), (ascii "flag", quote (stringify flag))],
      Chars p.1 ∧ ValueAt List.Nodup FIELD_LEVELS p.2 := by
    simp only [List.forall_mem_cons]
    exact ⟨⟨k2.body, valueAt_quote hname⟩, ⟨k3.body, valueAt_quote hdescription⟩,
      ⟨k4.body, valueAt_quote (chars_genre g)⟩, ⟨k6.body, valueAt_quote hflag⟩,
      List.forall_mem_nil _⟩
  have hmembers := membersText_members (List.cons_ne_nil _ _) hvalues
  have hst := Steps.cons (ChallengeField.name (p := {}) hname) (.cons (.description hdescription)
    (.cons (.genre (g := g)) (.cons (.flag hflag) .nil)))
  have hfields : ((((({} : CreateChallengeParser).fields ||| 1) ||| 2) ||| 8) ||| 4) =
    15 := by decide
  rw [hfields] at hst
  have hread := readObject_complete readChallengeField_complete (w := []) (List.forall_mem_nil _)
    (.inr hmembers)
    (by show [ascii "name", ascii "description", ascii "genre", ascii "flag"].Nodup; decide) hst []
  unfold EditorForm.body
  rw [stringify_genre]
  exact hread

/-- **The server takes what is saved exactly within its limits**, as it was written. -/
theorem body_taken (name description flag : JsString) (g : CtfGenre)
    (request : CreateChallengeRequest) :
    jsonToCreateChallengeRequest enoughMemory (EditorForm.body name description (genreText g) flag)
      = .ok request ↔
      request = savedRequest name description flag g ∧ request.Fits := by
  have hne : EditorForm.body name description (genreText g) flag ≠ [] := List.cons_ne_nil _ _
  unfold jsonToCreateChallengeRequest
  rw [if_neg hne, readObject_body]
  dsimp only
  constructor
  · intro h
    split at h
    · cases h
    · next hc =>
      cases h
      simp only [not_or, not_not, Nat.not_lt] at hc
      exact ⟨rfl, hc.2.2.1, hc.2.2.2.1, hc.2.2.2.2.1, hc.2.2.2.2.2.1, hc.2.2.2.2.2.2⟩
  · rintro ⟨rfl, hfits⟩
    refine if_neg ?_
    simp only [not_or, not_not, Nat.not_lt]
    exact ⟨rfl, trivial, hfits.nameSome, hfits.flagSome, hfits.nameCount, hfits.flagCount,
      hfits.descriptionLength⟩

/-- a form is refused when its name is blank, or when something is missing -/
theorem save_cases (form : EditorForm) {name flag : JsString} {g : CtfGenre}
    (hname : form.name = some name)
    (hgenre : form.genre = some (genreText g)) (hflag : form.flag = some flag) (hsome : flag ≠ []) :
    form.save = if name.all JsString.isBlank then .error EditorForm.incomplete
      else .ok (EditorForm.body name (form.description.getD []) (genreText g) flag) := by
  have hlisted : (genres.any fun g' => decide (g' = genreText g)) = true := by
    rw [List.any_eq_true]
    exact ⟨_, (genres_iff _).mpr ⟨g, rfl⟩, decide_eq_true rfl⟩
  have hgenreSome : (genreText g).isEmpty = false := by cases g <;> rfl
  have hflagSome : flag.isEmpty = false := by simpa using hsome
  have hblank : (trim name).isEmpty = name.all JsString.isBlank := by
    rw [Bool.eq_iff_iff, List.isEmpty_iff, JsString.trim_eq_nil_iff, List.all_eq_true]
  unfold EditorForm.save
  rw [hname, hgenre, hflag]
  dsimp only
  rw [hlisted, hgenreSome, hflagSome]
  simp only [Bool.or_false, Bool.not_true, hblank]

/-! ### a challenge that is opened and saved -/

/-- a challenge as the validators let it in -/
structure Kept (challenge : App.Challenge) : Prop where
  literals : challenge.Literals
  id : challenge.id ≤ INT_MAX
  fits : (⟨challenge.name, challenge.description, challenge.flag, challenge.genre⟩
    : CreateChallengeRequest).Fits

/-- what is saved fits wherever what was stored does -/
theorem savedRequest_fits {name description flag : JsString} {request : CreateChallengeRequest}
    (hfits : request.Fits)
    (hname : ParsesTo request.name name) (hdescription : ParsesTo request.description description)
    (hflag : ParsesTo request.flag flag) (g : CtfGenre) :
    (savedRequest name description flag g).Fits where
  nameSome h := hname.ne_nil hfits.nameSome ((stringify_nil_iff name).mp h)
  flagSome h := hflag.ne_nil hfits.flagSome ((stringify_nil_iff flag).mp h)
  nameCount := Nat.le_trans hname.shortest.count hfits.nameCount
  flagCount := Nat.le_trans hflag.shortest.count hfits.flagCount
  descriptionLength := Nat.le_trans hdescription.shortest.length hfits.descriptionLength

/-- the item of a challenge in the list of its owner -/
structure ItemOf (challenge : App.Challenge) (item : JsObject) : Prop where
  id : item.get (js "id") = some (.number challenge.id.toNat)
  name : ∃ s, text item "name" = some s ∧ ParsesTo challenge.name s
  description : ∃ s, text item "description" = some s ∧ ParsesTo challenge.description s
  flag : ∃ s, text item "flag" = some s ∧ ParsesTo challenge.flag s
  genre : text item "genre" = some (genreText challenge.genre)

theorem itemOf_members {challenge : App.Challenge} {object : JsObject}
    (h : List.Forall₂ ReadsMember (listedMembers true challenge) object)
    (hnodup : (object.map Prod.fst).Nodup)
    (hid : 0 ≤ challenge.id) : ItemOf challenge (project ownChallengeFields object) := by
  have hkeys := parsesTo_keys
  simp only [List.forall_mem_cons] at hkeys
  obtain ⟨k1, k2, k3, k4, -, k6, -⟩ := hkeys
  -- the property of a member, in the item
  have hproperty : ∀ (key : String) {v : Bytes}, (ascii key, v) ∈ listedMembers true challenge →
      ParsesTo (ascii key) (js key) → js key ∈ ownChallengeFields.map Prod.fst →
        ∃ value, ReadsValue v value ∧ (project ownChallengeFields object).get (js key) =
        some value := by
    intro key v hmem hkey hfield
    obtain ⟨⟨key', value⟩, hobject, hk, hv⟩ := forall₂_mem_left h hmem
    obtain rfl : key' = js key := hk.unique hkey
    exact ⟨value, hv, by rw [get_project hfield, get_mem hnodup hobject]⟩
  have hstring : ∀ (key : String) {f : Bytes}, (ascii key, quote f) ∈ listedMembers true challenge →
      ParsesTo (ascii key) (js key) → js key ∈ ownChallengeFields.map Prod.fst →
        ∃ s, text (project ownChallengeFields object) key = some s ∧ ParsesTo f s := by
    intro key f hmem hkey hfield
    obtain ⟨value, hv, hget⟩ := hproperty key hmem hkey hfield
    obtain ⟨s, hs, rfl⟩ := hv.of_quote
    exact ⟨s, by unfold text; rw [hget], hs⟩
  refine ⟨?_, hstring "name" (by simp [listedMembers]) k2 (by decide),
    hstring "description" (by simp [listedMembers]) k3 (by decide), hstring "flag"
    (by simp [listedMembers]) k6 (by decide), ?_⟩
  · obtain ⟨m, hm⟩ := Int.eq_ofNat_of_zero_le hid
    obtain ⟨value, hv, hget⟩ := hproperty "id" (v := App.intText challenge.id)
      (by simp [listedMembers]) k1 (by decide)
    rw [hm, App.intText_nat] at hv
    rw [hget, hv.of_digits, hm]
    rfl
  · obtain ⟨s, htext, hs⟩ := hstring "genre" (f := ctfGenreToString challenge.genre)
      (by simp [listedMembers]) k4
      (by decide)
    rw [htext, hs.unique (parsesTo_genre challenge.genre)]

/-- the form that is loaded from the item of a challenge -/
theorem ofItems_item {challenge : App.Challenge} {id : Nat} {items : List JsObject}
    {item : JsObject}
    (hfind : (items.find? fun item => decide (item.get (js "id") = some (.number id))) = some item)
    (hitem : ItemOf challenge item) :
    ∃ form name description flag, EditorForm.ofItems id items = .ok form ∧ form.name = some name ∧
      form.description = some description ∧ form.flag = some flag ∧ form.genre =
      some (genreText challenge.genre) ∧
      ParsesTo challenge.name name ∧ ParsesTo challenge.description description ∧
      ParsesTo challenge.flag flag := by
  obtain ⟨name, hname, pname⟩ := hitem.name
  obtain ⟨description, hdescription, pdescription⟩ := hitem.description
  obtain ⟨flag, hflag, pflag⟩ := hitem.flag
  have hgenre : (genres.find? fun genre => decide (some genre = text item "genre")) =
    some (genreText challenge.genre) := by
    rw [hitem.genre]
    cases challenge.genre <;> decide
  have hform : EditorForm.ofItems id items = .ok ⟨text item "name", text item "description",
      genres.find? fun genre => decide (some genre = text item "genre"), text item "flag"⟩ := by
    unfold EditorForm.ofItems
    rw [hfind]
  exact ⟨_, name, description, flag, hform, hname, hdescription, hflag, hgenre, pname,
    pdescription, pflag⟩

theorem items_of_objects {challenges : List App.Challenge} {objects : List JsObject}
    (hkept : ∀ c ∈ challenges, Kept c)
    (h : List.Forall₂ (List.Forall₂ ReadsMember) (challenges.map (listedMembers true)) objects)
    (hnodup : ∀ object ∈ objects, (object.map Prod.fst).Nodup) :
    List.Forall₂ ItemOf challenges (objects.map (project ownChallengeFields)) := by
  induction challenges generalizing objects with
  | nil =>
    cases h
    exact .nil
  | cons challenge challenges ih =>
    obtain ⟨hkept1, hkept2⟩ := List.forall_mem_cons.mp hkept
    obtain ⟨object, rest, hobject, hrest, rfl⟩ := List.forall₂_cons_left_iff.mp h
    obtain ⟨hnodup1, hnodup2⟩ := List.forall_mem_cons.mp hnodup
    exact .cons (itemOf_members hobject hnodup1 hkept1.literals.id) (ih hkept2 hrest hnodup2)

/-- the item with the id of a challenge is its item -/
theorem find_item {challenges : List App.Challenge} {items : List JsObject}
    (h : List.Forall₂ ItemOf challenges items)
    (hkept : ∀ c ∈ challenges, Kept c) (hids : (challenges.map (·.id)).Nodup)
    {challenge : App.Challenge} (hmem : challenge ∈ challenges) :
    ∃ item, (items.find? fun item =>
      decide (item.get (js "id") = some (.number challenge.id.toNat))) = some item ∧
      ItemOf challenge item := by
  induction h with
  | nil => cases hmem
  | @cons c item challenges items hitem _ ih =>
    obtain ⟨hkept1, hkept2⟩ := List.forall_mem_cons.mp hkept
    rw [List.map_cons, List.nodup_cons] at hids
    rcases List.mem_cons.mp hmem with rfl | hrest
    · exact ⟨item, List.find?_cons_of_pos (by simp [hitem.id]), hitem⟩
    · obtain ⟨item', hfind, hitem'⟩ := ih hkept2 hids.2 hrest
      refine ⟨item', ?_, hitem'⟩
      have hne : c.id ≠ challenge.id := by
        intro heq
        exact hids.1 (heq ▸ List.mem_map_of_mem hrest)
      have h1 := hkept1.literals.id
      have h2 := (hkept2 challenge hrest).literals.id
      have hnat : c.id.toNat ≠ challenge.id.toNat := by omega
      rw [List.find?_cons_of_neg (by rw [hitem.id]; simpa using hnat)]
      exact hfind

/-- **A challenge that its owner opens in the editor and saves stays what it was**: the list of the
owner is taken, the form shows the strings that are stored, and unless the name is blank the form is
saved, the server accepts the body, and what it stores is read as the same strings, with the same
genre, and judges every answer alike, however the stored text had been spelled. -/
theorem edit_unchanged {challenges : List App.Challenge} (hkept : ∀ c ∈ challenges, Kept c)
    (hids : (challenges.map (·.id)).Nodup) {challenge : App.Challenge}
    (hmem : challenge ∈ challenges)
    {objects : List JsObject} (hread : ReadsArray (App.challengesToJson challenges) objects) :
    ∃ items form name, listResponse (some (objects.map some)) ownChallengeFields = .ok items ∧
      EditorForm.ofItems challenge.id.toNat items = .ok form ∧ form.name = some name ∧
      ParsesTo challenge.name name ∧
      (name.all JsString.isBlank = true → form.save = .error EditorForm.incomplete) ∧
      (name.all JsString.isBlank = false → ∃ body request, form.save = .ok body ∧
        jsonToCreateChallengeRequest enoughMemory body = .ok request ∧ request.genre =
        challenge.genre ∧
        SameText request.name challenge.name ∧ SameText request.description challenge.description ∧
        SameText request.flag challenge.flag) := by
  have hlist := ServerList.ownChallenges fun c hc => ⟨(hkept c hc).literals, (hkept c hc).id⟩
  obtain ⟨objects', hread', hrows, htyped⟩ := hlist.read
  cases hread.unique hread'
  have hnodup : ∀ object ∈ objects, (object.map Prod.fst).Nodup := by
    obtain ⟨vs, -, hobjects⟩ := hread
    intro object hobject
    obtain ⟨v, -, ps, -, hkeys, -⟩ := forall₂_mem_left hobjects.flip hobject
    exact hkeys
  have hitems := items_of_objects hkept hrows hnodup
  obtain ⟨item, hfind, hitem⟩ := find_item hitems hkept hids hmem
  obtain ⟨form, name, description, flag, hform, hname, hdescription, hflag, hgenre, pname,
    pdescription, pflag⟩ :=
    ofItems_item hfind hitem
  have hfits := (hkept challenge hmem).fits
  have hsave := save_cases form hname hgenre hflag (pflag.ne_nil hfits.flagSome)
  rw [hdescription] at hsave
  refine ⟨_, form, name, listResponse_typed htyped, hform, hname, pname, fun hblank => ?_,
    fun hblank => ?_⟩
  · rw [hsave, if_pos hblank]
  · rw [hblank, if_neg (by decide)] at hsave
    refine ⟨_, savedRequest name description flag challenge.genre, hsave, (body_taken _ _ _ _ _).mpr
      ⟨rfl, ?_⟩, rfl,
      (parsesTo_stringify name).same pname, (parsesTo_stringify description).same pdescription,
      (parsesTo_stringify flag).same pflag⟩
    exact savedRequest_fits hfits pname pdescription pflag challenge.genre

/-- a challenge whose name and flag are spelled with escapes -/
def spelledChallenge : App.Challenge :=
  { id := 3, creatorId := List.replicate 32 97, name := ascii "\\u0041b", description := [], flag :=
    ascii "\\/f", genre := .pwn }

theorem parsesTo_spelled : ParsesTo (ascii "\\u0041b") (js "Ab") ∧ ParsesTo (ascii "\\/f")
    (js "/f") := by
  have hzero : HexDigit 0x30 ∧ HexDigit 0x34 ∧ HexDigit 0x31 := by unfold HexDigit; decide
  have hb := ParsesTo.cons (.unescaped 'b' (by decide) (by decide) (by decide)) .nil
  have hf := ParsesTo.cons (.unescaped 'f' (by decide) (by decide) (by decide)) .nil
  exact ⟨.cons (.unicode 0x30 0x30 0x34 0x31 hzero.1 hzero.1 hzero.2.1 hzero.2.2) hb,
    .cons (.escape 0x2f 0x2f (by decide)) hf⟩

theorem spelledChallenge_kept : Kept spelledChallenge where
  literals := ⟨by decide, App.chars_id (by decide), parsesTo_spelled.1.body, .nil,
    parsesTo_spelled.2.body⟩
  id := by decide
  fits := ⟨by decide, by decide, by decide, by decide, by decide⟩

theorem edit_unchanged_sample :
    ∃ objects items form name, ReadsArray (App.challengesToJson [spelledChallenge]) objects ∧
    listResponse (some (objects.map some)) ownChallengeFields = .ok items ∧
    EditorForm.ofItems 3 items = .ok form ∧ form.name = some name ∧
    ParsesTo spelledChallenge.name name ∧
    (name.all JsString.isBlank = true → form.save = .error EditorForm.incomplete) ∧
    (name.all JsString.isBlank = false → ∃ body request, form.save = .ok body ∧
      jsonToCreateChallengeRequest enoughMemory body = .ok request ∧ request.genre = .pwn ∧
      SameText request.name spelledChallenge.name ∧ SameText request.description
      spelledChallenge.description ∧
      SameText request.flag spelledChallenge.flag) := by
  have hkept := List.forall_mem_singleton.mpr spelledChallenge_kept
  have hlist := ServerList.ownChallenges fun c hc => ⟨(hkept c hc).literals, (hkept c hc).id⟩
  obtain ⟨objects, hread, -⟩ := hlist.read
  obtain ⟨items, form, name, h⟩ := edit_unchanged hkept (List.nodup_singleton _)
    List.mem_cons_self hread
  exact ⟨objects, items, form, name, hread, h⟩

/-! ## answers -/

/-- what `DetailPage.submit` does on a page with its challenge loaded: the error, or the body of
`answer` -/
def submit (id : Nat) (answer : JsString) : Except String Bytes :=
  if answer.isEmpty then .error "解答を入力してください。" else .ok (answerBody id (stringify answer))

/-- **The one text that solves a challenge is its flag**: for every flag that was accepted, however
it was spelled, what is typed into the page is sent, accepted and judged correct exactly when it is
the text of the flag, and the flag is well formed. -/
theorem flag_typed {mem : Nat → Bool} {json : Bytes} {request : CreateChallengeRequest}
    (h : jsonToCreateChallengeRequest mem json = .ok request) {flag : JsString}
    (hflag : ParsesTo request.flag flag)
    (id : Nat) (h1 : 1 ≤ id) (h2 : id ≤ INT_MAX) (answer : JsString) :
    (∃ body parsed, submit id answer = .ok body ∧ jsonToSubmitAnswerRequest enoughMemory body
      = .ok parsed ∧
        equalDecoded request.flag parsed.answer = some true) ↔
      answer = flag ∧ WellFormed flag := by
  have hacc := jsonToCreateChallengeRequest_ok h
  have hparse := parsesTo_stringify answer
  have hlit : Literal (stringify answer) := (chars_iff _).mp hparse.body
  have hread := readObject_answerBody id (stringify answer) h1 h2 hlit
  have hne : answerBody id (stringify answer) ≠ [] := List.cons_ne_nil _ _
  constructor
  · rintro ⟨body, parsed, hsubmit, hparsed, hequal⟩
    unfold submit at hsubmit
    split at hsubmit
    · cases hsubmit
    cases hsubmit
    unfold jsonToSubmitAnswerRequest at hparsed
    rw [if_neg hne, hread] at hparsed
    dsimp only at hparsed
    split at hparsed
    · cases hparsed
    split at hparsed
    · cases hparsed
    cases hparsed
    by_cases hboth : WellFormed flag ∧ WellFormed answer
    · rw [hflag.equalDecoded hparse hboth.1 hboth.2, Option.some.injEq, decide_eq_true_eq] at hequal
      exact ⟨hequal.symm, hboth.1⟩
    · rw [hflag.equalDecoded_none hparse hboth] at hequal
      cases hequal
  · rintro ⟨rfl, hformed⟩
    have hsome : answer ≠ [] := hflag.ne_nil hacc.flagSome
    have hself := hparse.equalDecoded hparse hformed hformed
    refine ⟨answerBody id (stringify answer), ⟨id, stringify answer⟩, ?_, ?_, ?_⟩
    · unfold submit
      rw [if_neg (by simpa using hsome)]
    · unfold jsonToSubmitAnswerRequest
      rw [if_neg hne, hread]
      dsimp only
      rw [if_neg, if_neg]
      · rw [hself]
        simp only [not_or, Nat.not_lt]
        exact ⟨Nat.le_trans hflag.shortest.count hacc.flagCount, Option.some_ne_none _⟩
      · simp only [not_or, not_not]
        exact ⟨rfl, by omega, fun hnil => hsome ((stringify_nil_iff answer).mp hnil)⟩
    · rw [hflag.equalDecoded hparse hformed hformed, decide_eq_true rfl]

theorem flag_typed_sample : (∃ body parsed, submit 3 (js "/f") = .ok body ∧
      jsonToSubmitAnswerRequest enoughMemory body = .ok parsed ∧
        equalDecoded (ascii "\\/f") parsed.answer = some true) ↔
    js "/f" = js "/f" ∧ WellFormed (js "/f") :=
  flag_typed
    (show jsonToCreateChallengeRequest enoughMemory (challengeBody "\\/f") =
      .ok ⟨ascii "n", [], ascii "\\/f", .web⟩ by decide +kernel)
    parsesTo_spelled.2 3 (by decide) (by decide) (js "/f")

end Client

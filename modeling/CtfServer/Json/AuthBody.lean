import CtfServer.Json.Fields
import CtfServer.Json.Denotation

/-!
# Credentials, by the object that the body denotes

`json_to_auth_request` and `free_auth_request` (json_auth.c), with the blocks that the keys and the
decoded strings take from the heap.

* `AuthObject json u p`    the text is an object with the members `username` and `password`, and the
                           characters of these are `u` and `p`;
* `jsonToAuthRequest_iff`  where memory suffices, such objects are what is taken;
* `objectLoopHeap`, `jsonToAuthRequestHeap`   the functions with their blocks (`none` for a release
                           of what is not live and for a store outside a block);
* `objectLoopHeap_cases`   the loop over the fields owns one block for each key that it read;
* `jsonToAuthRequest_denotes`   what is returned depends on `u` and `p`, and nothing is leaked.
-/

set_option linter.unusedVariables false
set_option linter.unusedSimpArgs false

namespace Json

/-! ## the object -/

/-- a string -/
def StringValue (v : Bytes) : Prop := ∃ f, Chars f ∧ v = quote f

/-- one object between whitespace, with two members whose decoded keys are `username` and
`password`, in any order, and whose values are strings that denote `u` and `p` -/
def AuthObject (json : Bytes) (u p : List Char) : Prop :=
  ∃ w ms w' ku vu kp vp, Ws w ∧ Ws w' ∧ json = w ++ 0x7b :: (ms ++ 0x7d :: w') ∧
    (Members StringValue [(ku, quote vu), (kp, quote vp)] ms ∨
      Members StringValue [(kp, quote vp), (ku, quote vu)] ms) ∧
    Denotes ku "username".toList ∧ Denotes kp "password".toList ∧ Denotes vu u ∧ Denotes vp p

/-- the alphabet of usernames -/
def UsernameChar (ch : Char) : Prop :=
  ('A' ≤ ch ∧ ch ≤ 'Z') ∨ ('a' ≤ ch ∧ ch ≤ 'z') ∨ ('0' ≤ ch ∧ ch ≤ '9') ∨ ch = '_' ∨ ch = '-'

/-- what is asked of a username and of the bytes of a password -/
structure Acceptable (u p : List Char) : Prop where
  usernameLength : 3 ≤ u.length ∧ u.length ≤ 32
  usernameChars : ∀ ch ∈ u, UsernameChar ch
  passwordLength : 8 ≤ (encode p).length ∧ (encode p).length ≤ 128
  passwordNul : (0 : UInt8) ∉ encode p

/-! ## the checks on the decoded bytes -/

theorem isUsernameByte_iff (c : UInt8) : isUsernameByte c = true ↔
    (97 ≤ c.toNat ∧ c.toNat ≤ 122) ∨ (65 ≤ c.toNat ∧ c.toNat ≤ 90) ∨ (48 ≤ c.toNat ∧ c.toNat ≤ 57) ∨
      c.toNat = 95 ∨ c.toNat = 45 := by
  unfold isUsernameByte
  simp only [Bool.or_eq_true, Bool.and_eq_true, decide_eq_true_eq, beq_iff_eq,
    UInt8.le_iff_toNat_le,
    ← UInt8.toNat_inj, or_assoc]
  rfl

theorem usernameChar_iff (ch : Char) : UsernameChar ch ↔
    (97 ≤ ch.val.toNat ∧ ch.val.toNat ≤ 122) ∨ (65 ≤ ch.val.toNat ∧ ch.val.toNat ≤ 90) ∨
      (48 ≤ ch.val.toNat ∧ ch.val.toNat ≤ 57) ∨ ch.val.toNat = 95 ∨ ch.val.toNat = 45 := by
  have heq : ∀ c : Char, ch = c ↔ ch.val.toNat = c.val.toNat := fun c => Char.toNat_inj.symm
  have hle : ∀ c d : Char, c ≤ d ↔ c.val.toNat ≤ d.val.toNat := fun c d => Iff.rfl
  unfold UsernameChar
  simp only [heq, hle]
  show (65 ≤ _ ∧ _ ≤ 90) ∨ (97 ≤ _ ∧ _ ≤ 122) ∨ (48 ≤ _ ∧ _ ≤ 57) ∨ _ = 95 ∨ _ = 45 ↔ _
  omega

/-- one character of a username is one byte of the alphabet -/
theorem encode_username_char (ch : Char) :
    (∀ c ∈ String.utf8EncodeChar ch, isUsernameByte c = true) ↔ UsernameChar ch := by
  by_cases hlow : ch.val.toNat ≤ 0x7f
  · have hv : (UInt8.ofNat ch.val.toNat).toNat = ch.val.toNat := by
      rw [UInt8.toNat_ofNat']
      omega
    rw [char_ascii hlow, List.forall_mem_singleton, isUsernameByte_iff, usernameChar_iff, hv]
  · constructor
    · intro h
      cases he : String.utf8EncodeChar ch with
      | nil => exact absurd he (by simp)
      | cons c cs =>
        have h1 := (strUtf8_encode (by omega) he).1
        have h2 := (isUsernameByte_iff c).mp (h c (by rw [he]; exact List.mem_cons_self))
        have h3 := UInt8.le_iff_toNat_le.mp h1
        change 128 ≤ c.toNat at h3
        omega
    · intro h
      have h1 := (usernameChar_iff ch).mp h
      omega

theorem encode_username (u : List Char) :
    (∀ c ∈ encode u, isUsernameByte c = true) ↔ ∀ ch ∈ u, UsernameChar ch := by
  simp only [encode, List.mem_flatMap, forall_exists_index, and_imp]
  constructor
  · intro h ch hch
    exact (encode_username_char ch).mp fun c hc => h c ch hch hc
  · intro h c ch hch hc
    exact (encode_username_char ch).mpr (h ch hch) c hc

theorem encode_length_username {u : List Char} (h : ∀ ch ∈ u, UsernameChar ch) :
    (encode u).length = u.length := by
  induction u with
  | nil => rfl
  | cons ch u ih =>
    obtain ⟨h1, h2⟩ := List.forall_mem_cons.mp h
    have h3 := (usernameChar_iff ch).mp h1
    rw [encode_cons, List.length_append, ih h2, char_ascii (by omega), List.length_singleton,
      List.length_cons, Nat.add_comm]

/-- **The checks on the bytes are the checks on the characters.** -/
theorem acceptable_iff (u p : List Char) :
    (validUsername (encode u) && validPassword (encode p)) = true ↔ Acceptable u p := by
  unfold validUsername validPassword
  simp only [Bool.and_eq_true, decide_eq_true_eq, List.all_eq_true, Bool.not_eq_true',
    ← Bool.not_eq_true, List.contains_iff_mem]
  constructor
  · rintro ⟨⟨⟨h1, h2⟩, h3⟩, ⟨h4, h5⟩, h6⟩
    have h7 := (encode_username u).mp h3
    rw [encode_length_username h7] at h1 h2
    exact ⟨⟨h1, h2⟩, h7, ⟨h4, h5⟩, h6⟩
  · rintro ⟨⟨h1, h2⟩, h3, ⟨h4, h5⟩, h6⟩
    rw [encode_length_username h3]
    exact ⟨⟨⟨h1, h2⟩, (encode_username u).mpr h3⟩, ⟨h4, h5⟩, h6⟩

/-! ## the fields -/

/-- the two fields, and what they do to `auth_parser` -/
inductive AuthField : Bytes → Bytes → AuthParser → AuthParser → Prop where
  | username {k f : Bytes} {p : AuthParser} : Denotes k "username".toList → Chars f →
      p.fields &&& 1 = 0 → AuthField k (quote f) p { p with username := f, fields :=
        p.fields ||| 1 }
  | password {k f : Bytes} {p : AuthParser} : Denotes k "password".toList → Chars f →
      p.fields &&& 2 = 0 → AuthField k (quote f) p { p with password := f, fields :=
        p.fields ||| 2 }

/-- characters that are not escaped denote themselves -/
theorem denotes_plain {chs : List Char}
    (h : ∀ ch ∈ chs, 0x20 ≤ ch.val.toNat ∧ ch ≠ '"' ∧ ch ≠ '\\') :
    Denotes (encode chs) chs := by
  induction chs with
  | nil => exact .nil
  | cons ch chs ih =>
    obtain ⟨⟨h1, h2, h3⟩, h4⟩ := List.forall_mem_cons.mp h
    exact .cons (.unescaped ch h1 h2 h3) (ih h4)

theorem denotes_username : Denotes (ascii "username") "username".toList := by
  have h : ascii "username" = encode "username".toList := by decide +kernel
  rw [h]
  exact denotes_plain (by simp)

theorem denotes_password : Denotes (ascii "password") "password".toList := by
  have h : ascii "password" = encode "password".toList := by decide +kernel
  rw [h]
  exact denotes_plain (by simp)

theorem equalDecoded_true {key name : Bytes} {chs : List Char} (hn : Denotes name chs) :
    equalDecoded key name = some true ↔ Denotes key chs := by
  rw [codepoints_denotes, equalDecoded_eq, hn.read]
  cases codepoints key with
  | none => simp
  | some x => simp

theorem username_ne_password : "username".toList ≠ "password".toList := by decide

theorem readAuthField_sound : FieldSound StringValue AuthField readAuthField := by
  intro key p cur p' rest h
  unfold readAuthField at h
  split at h
  · cases h
  · next hk =>
    split at h
    · cases h
    next hbit =>
    obtain ⟨w, f, hw, hf, rfl, hcur⟩ := readStringField_sound h
    exact ⟨w, quote f, hw, ⟨f, hf, rfl⟩,
      .username ((equalDecoded_true denotes_username).mp hk) hf (not_not.mp hbit), hcur⟩
  · split at h
    · cases h
    · next hk =>
      split at h
      · cases h
      next hbit =>
      obtain ⟨w, f, hw, hf, rfl, hcur⟩ := readStringField_sound h
      exact ⟨w, quote f, hw, ⟨f, hf, rfl⟩,
        .password ((equalDecoded_true denotes_password).mp hk) hf (not_not.mp hbit), hcur⟩
    · cases h

theorem readAuthField_complete : FieldComplete StringValue AuthField readAuthField := by
  intro key p p' w v r hw hv hR he
  unfold readAuthField
  cases hR with
  | username hk hf hbit =>
    rw [(equalDecoded_true denotes_username).mpr hk]
    dsimp only
    rw [if_neg (not_not.mpr hbit)]
    exact readStringField_complete hw hf r
  | password hk hf hbit =>
    have hno : equalDecoded key (ascii "username") = some false := by
      rw [equalDecoded_eq, hk.read, denotes_username.read]
      decide +kernel
    rw [hno]
    dsimp only
    rw [(equalDecoded_true denotes_password).mpr hk]
    dsimp only
    rw [if_neg (not_not.mpr hbit)]
    exact readStringField_complete hw hf r

/-- **Both bits are set by one member of each name, in either order.** -/
theorem steps_auth {ps : List (Bytes × Bytes)} {q : AuthParser} (h : Steps AuthField ps {} q)
    (hq : q.fields = 3) : ∃ ku kp, Denotes ku "username".toList ∧ Denotes kp "password".toList ∧
      (ps = [(ku, quote q.username), (kp, quote q.password)] ∨
        ps = [(kp, quote q.password), (ku, quote q.username)]) := by
  -- a third member would find both bits set
  have hlast : ∀ (ps : List (Bytes × Bytes)) (p q : AuthParser), p.fields = 3 →
    Steps AuthField ps p q →
      ps = [] ∧ q = p := by
    intro ps p q hp hst
    cases hst with
    | nil => exact ⟨rfl, rfl⟩
    | cons hR _ =>
      cases hR with
      | username _ _ hbit => rw [hp] at hbit; cases hbit
      | password _ _ hbit => rw [hp] at hbit; cases hbit
  have h1 : (({} : AuthParser).fields ||| 1) &&& 1 ≠ 0 := by decide
  have h2 : (({} : AuthParser).fields ||| 2) &&& 2 ≠ 0 := by decide
  have h12 : (({} : AuthParser).fields ||| 1) ||| 2 = 3 := by decide
  have h21 : (({} : AuthParser).fields ||| 2) ||| 1 = 3 := by decide
  cases h with
  | nil => cases hq
  | cons hR hst =>
    cases hR with
    | username hk =>
      cases hst with
      | nil => cases hq
      | cons hR hst =>
        cases hR with
        | username _ _ hbit => exact absurd hbit h1
        | password hk' =>
          obtain ⟨rfl, rfl⟩ := hlast _ _ _ h12 hst
          exact ⟨_, _, hk, hk', .inl rfl⟩
    | password hk =>
      cases hst with
      | nil => cases hq
      | cons hR hst =>
        cases hR with
        | username hk' =>
          obtain ⟨rfl, rfl⟩ := hlast _ _ _ h21 hst
          exact ⟨_, _, hk', hk, .inr rfl⟩
        | password _ _ hbit => exact absurd hbit h2

/-! ## where memory suffices -/

theorem Denotes.chars {s : Bytes} {chs : List Char} (h : Denotes s chs) : Chars s := by
  have hescape : ∀ {e : UInt8} {n : Nat}, (e, n) ∈ escapes → e ∈ ascii "\"\\/bfnrt" := by
    intro e n he
    simp only [escapes, List.mem_cons, Prod.mk.injEq, List.not_mem_nil, or_false] at he
    rcases he with he | he | he | he | he | he | he | he <;> (obtain ⟨rfl, -⟩ := he; decide +kernel)
  induction h with
  | nil => exact .nil
  | @cons u s ch chs hu _ ih =>
    cases hu with
    | unescaped _ h1 h2 h3 => exact .cons (.unescaped ch h1 h2 h3) ih
    | escape e _ he => exact .cons (.escape e (hescape he)) ih
    | unicode a b c d _ ha hb hc hd => exact .cons (.unicode a b c d ha hb hc hd) ih
    | pair a b c d a' b' c' d' _ ha hb hc hd ha' hb' hc' hd' =>
      show Chars ([0x5c, 0x75, a, b, c, d] ++ ([0x5c, 0x75, a', b', c', d'] ++ s))
      exact .cons (.unicode a b c d ha hb hc hd) (.cons (.unicode a' b' c' d' ha' hb' hc' hd') ih)

theorem Denotes.decodeLoop {s : Bytes} {chs : List Char} (h : Denotes s chs) :
    decodeLoop s = encode chs := by
  induction h with
  | nil =>
    rw [Json.decodeLoop]
    rfl
  | @cons u s ch chs hu _ ih =>
    have hread := hu.read s
    rw [Json.decodeLoop, encode_cons]
    split
    · next hn =>
      rw [hread] at hn
      cases hn
    · next value rest hv =>
      rw [hread, Option.some.injEq, Prod.mk.injEq] at hv
      obtain ⟨rfl, rfl⟩ := hv
      rw [utf8_encode, ih]

theorem decode_iff (slice value : Bytes) :
    decode true slice = .ok value ↔ ∃ chs, Denotes slice chs ∧ value = encode chs := by
  have hself : equalDecoded slice slice = none ↔ ¬ ∃ chs, Denotes slice chs := by
    rw [← codepoints_none_iff, equalDecoded_eq]
    cases codepoints slice <;> simp
  unfold decode
  by_cases hd : ∃ chs, Denotes slice chs
  · obtain ⟨chs, hx⟩ := hd
    rw [if_neg fun h => hself.mp h ⟨chs, hx⟩, hx.decodeLoop]
    constructor
    · intro h
      cases h
      exact ⟨chs, hx, rfl⟩
    · rintro ⟨chs', hx', rfl⟩
      rw [hx'.unique hx]
      rfl
  · rw [if_pos (hself.mpr hd)]
    constructor
    · intro h
      cases h
    · rintro ⟨chs, hx, -⟩
      exact absurd ⟨chs, hx⟩ hd

/-- **What the reader of the fields finds in such an object** are the two bodies. -/
theorem authObject_read (json : Bytes) (u p : List Char) :
    AuthObject json u p ↔ ∃ vu vp rest, readObject enoughMemory readAuthField {} json =
    .ok (⟨vu, vp, 3⟩, rest) ∧
      Ws rest ∧ Denotes vu u ∧ Denotes vp p := by
  constructor
  · rintro ⟨w, ms, w', ku, vu, kp, vp, hw, hw', rfl, hms, hku, hkp, hvu, hvp⟩
    have hne : ku ≠ kp := by
      rintro rfl
      exact username_ne_password (hku.unique hkp)
    have h12 : (({} : AuthParser).fields ||| 1) &&& 2 = 0 := by decide
    have h21 : (({} : AuthParser).fields ||| 2) &&& 1 = 0 := by decide
    refine ⟨vu, vp, w', ?_, hw', hvu, hvp⟩
    rcases hms with hms | hms
    · refine readObject_complete readAuthField_complete hw (.inr hms) (by simp [hne]) ?_ w'
      have hst := Steps.cons (AuthField.username hku hvu.chars rfl)
        (.cons (.password hkp hvp.chars h12) .nil)
      rwa [show (({} : AuthParser).fields ||| 1) ||| 2 = 3 by decide] at hst
    · refine readObject_complete readAuthField_complete hw (.inr hms) (by simp [hne.symm]) ?_ w'
      have hst := Steps.cons (AuthField.password hkp hvp.chars rfl)
        (.cons (.username hku hvu.chars h21) .nil)
      rwa [show (({} : AuthParser).fields ||| 2) ||| 1 = 3 by decide] at hst
  · rintro ⟨vu, vp, rest, hread, hrest, hvu, hvp⟩
    obtain ⟨w, ps, ms, hw, hb, -, hst, rfl⟩ := readObject_sound readAuthField_sound hread
    obtain ⟨ku, kp, hku, hkp, hps⟩ := steps_auth hst rfl
    refine ⟨w, ms, rest, ku, vu, kp, vp, hw, hrest, rfl, ?_, hku, hkp, hvu, hvp⟩
    rcases hb with ⟨rfl, -⟩ | hms
    · rcases hps with hps | hps <;> cases hps
    · rcases hps with rfl | rfl
      · exact .inl hms
      · exact .inr hms

/-- an object denotes one pair of credentials -/
theorem AuthObject.unique {json : Bytes} {u p u' p' : List Char} (h : AuthObject json u p)
    (h' : AuthObject json u' p') : u = u' ∧ p = p' := by
  obtain ⟨vu, vp, rest, hread, -, hu, hp⟩ := (authObject_read json u p).mp h
  obtain ⟨vu', vp', rest', hread', -, hu', hp'⟩ := (authObject_read json u' p').mp h'
  rw [hread, Except.ok.injEq, Prod.mk.injEq, AuthParser.mk.injEq] at hread'
  obtain ⟨⟨rfl, rfl, -⟩, -⟩ := hread'
  exact ⟨hu.unique hu', hp.unique hp'⟩

/-- **Where memory suffices, the bodies that are taken are the objects whose credentials are
acceptable**, and the decoded credentials are returned. -/
theorem jsonToAuthRequest_iff (json : Bytes) (request : AuthRequest) :
    jsonToAuthRequest enoughMemory true true json = .ok request ↔
      json.length < 65536 ∧ ∃ u p, AuthObject json u p ∧ Acceptable u p ∧
      request = ⟨encode u, encode p⟩ := by
  constructor
  · intro h
    have hvalid := jsonToAuthRequest_ok h
    unfold jsonToAuthRequest at h
    split at h
    · cases h
    next hlen =>
    split at h
    · cases h
    next parsed cur hread =>
    split at h
    · cases h
    next hfields =>
    split at h
    · cases h
    next username hu =>
    split at h
    · cases h
    next password hp =>
    split at h
    · cases h
      rw [not_or, not_not, not_not] at hfields
      obtain ⟨u, hdu, rfl⟩ := (decode_iff _ _).mp hu
      obtain ⟨p, hdp, rfl⟩ := (decode_iff _ _).mp hp
      refine ⟨by omega, u, p, ?_, ?_, rfl⟩
      · refine (authObject_read json u p).mpr ⟨parsed.username, parsed.password, cur, ?_,
          (skipWhitespace_nil_iff cur).mp hfields.2, hdu, hdp⟩
        rw [hread, ← hfields.1]
      · exact (acceptable_iff u p).mp (by rw [hvalid.1, hvalid.2]; rfl)
    · cases h
  · rintro ⟨hlen, u, p, hobj, hacc, rfl⟩
    obtain ⟨vu, vp, rest, hread, hrest, hu, hp⟩ := (authObject_read json u p).mp hobj
    have hne : json ≠ [] := by
      rintro rfl
      cases hread
    unfold jsonToAuthRequest
    rw [if_neg (not_or.mpr ⟨hne, by omega⟩), hread]
    dsimp only
    rw [if_neg (by simp [(skipWhitespace_nil_iff rest).mpr hrest]), (decode_iff _ _).mpr
      ⟨u, hu, rfl⟩]
    dsimp only
    rw [(decode_iff _ _).mpr ⟨p, hp, rfl⟩]
    dsimp only
    rw [if_pos ((acceptable_iff u p).mpr hacc)]

/-! ## the keys on the heap -/

/-- `sizeof(json_key)` -/
def KEY_SIZE : Nat := 24

/-- `json_key`: the address of the block, and the slice in it -/
structure JsonKey where
  ptr : Nat
  slice : Bytes

section
variable {σ : Type}

/-- the loop of `read_object`, with its list of keys, up to `done` -/
def objectLoopHeap (A : Allocator) (readField : Bytes → σ → Bytes → Except Error (σ × Bytes)) :
    Nat → List JsonKey → σ → Bytes → Heap → Except Error (σ × Bytes) × List JsonKey × Heap
  | 0, keys, _, _, heap => (.error .invalid, keys, heap)
  | turns + 1, keys, context, cur, heap =>
    match readString cur with
    | none => (.error .invalid, keys, heap)
    | some (key, cur) =>
      if (keys.map JsonKey.slice).contains key then (.error .invalid, keys, heap)
      else
        match heap.malloc A KEY_SIZE with
        | (none, heap) => (.error .oom, keys, heap)
        | (some (ptr, _), heap) =>
          let keys := ⟨ptr, key⟩ :: keys
          match consume COLON cur with
          | none => (.error .invalid, keys, heap)
          | some cur =>
            match readField key context cur with
            | .error e => (.error e, keys, heap)
            | .ok (context, cur) =>
              match consume CLOSE_BRACE cur with
              | some cur => (.ok (context, cur), keys, heap)
              | none =>
                match consume COMMA cur with
                | some cur => objectLoopHeap A readField turns keys context cur heap
                | none => (.error .invalid, keys, heap)

/-- `read_object`: behind `done` every key is released -/
def readObjectHeap (A : Allocator) (readField : Bytes → σ → Bytes → Except Error (σ × Bytes))
    (context : σ) (cur : Bytes) (heap : Heap) : Option (Except Error (σ × Bytes) × Heap) :=
  match consume OPEN_BRACE cur with
  | none => some (.error .invalid, heap)
  | some cur =>
    match consume CLOSE_BRACE cur with
    | some cur => some (.ok (context, cur), heap)
    | none => do
      let (outcome, keys, heap) := objectLoopHeap A readField (cur.length + 1) [] context cur heap
      let heap ← heap.freeAll (keys.map JsonKey.ptr)
      some (outcome, heap)

/-- a read that failed promises nothing about the requests -/
theorem granted_of_ok {A : Allocator} {heap heap' : Heap} {e : Error} (x : σ × Bytes)
    (h : (.error e : Except Error (σ × Bytes)) = .ok x) : A.Granted heap heap' := by
  cases h

/-- **The loop over the fields** owns one block for each key in its list, and reads what it reads
where memory suffices unless a request was refused. -/
theorem objectLoopHeap_cases (A : Allocator)
    (readField : Bytes → σ → Bytes → Except Error (σ × Bytes))
    {base : Finset Nat} (turns : Nat) (keys : List JsonKey) (context : σ) (cur : Bytes)
    (heap : Heap) (ho : heap.Owns base (keys.map JsonKey.ptr)) :
    ∃ outcome keys' heap', objectLoopHeap A readField turns keys context cur heap =
      (outcome, keys', heap') ∧
      heap'.Owns base (keys'.map JsonKey.ptr) ∧ heap.next ≤ heap'.next ∧
      (A.Granted heap heap' →
        outcome = objectLoop enoughMemory readField turns (keys.map JsonKey.slice) context cur) ∧
      ∀ x, outcome = .ok x → A.Granted heap heap' := by
  induction turns generalizing keys context cur heap with
  | zero => exact ⟨_, _, _, rfl, ho, Nat.le_refl _, fun _ => rfl, granted_of_ok⟩
  | succ turns ih =>
    rw [objectLoopHeap, objectLoop]
    cases h1 : readString cur with
    | none => exact ⟨_, _, _, rfl, ho, Nat.le_refl _, fun _ => rfl, granted_of_ok⟩
    | some q =>
      obtain ⟨key, cur1⟩ := q
      dsimp only
      by_cases hk : key ∈ keys.map JsonKey.slice
      · rw [if_pos (List.contains_iff_mem.mpr hk), if_pos hk]
        exact ⟨_, _, _, rfl, ho, Nat.le_refl _, fun _ => rfl, granted_of_ok⟩
      rw [if_neg (fun h => hk (List.contains_iff_mem.mp h)), if_neg hk,
        if_neg (by simp [enoughMemory])]
      rcases Heap.malloc_cases A KEY_SIZE heap with ⟨hg, hm⟩ | ⟨hg, hm⟩
      · have hgrant : A.Granted heap heap.take := Allocator.granted_take hg
        have hnext : heap.next ≤ heap.take.next := Nat.le_succ _
        have ho1 : heap.take.Owns base ((⟨heap.next, key⟩ :: keys).map JsonKey.ptr) := ho.take
        rw [hm]
        dsimp only
        cases h2 : consume COLON cur1 with
        | none => exact ⟨_, _, _, rfl, ho1, hnext, fun _ => rfl, granted_of_ok⟩
        | some cur2 =>
          dsimp only
          cases h3 : readField key context cur2 with
          | error e => exact ⟨_, _, _, rfl, ho1, hnext, fun _ => rfl, granted_of_ok⟩
          | ok q =>
            dsimp only
            cases h4 : consume CLOSE_BRACE q.2 with
            | some r => exact ⟨_, _, _, rfl, ho1, hnext, fun _ => rfl, fun _ _ => hgrant⟩
            | none =>
              dsimp only
              cases h5 : consume COMMA q.2 with
              | none => exact ⟨_, _, _, rfl, ho1, hnext, fun _ => rfl, granted_of_ok⟩
              | some cur4 =>
                obtain ⟨outcome, keys', heap', hrun, ho', hle, hpure, hok⟩ :=
                  ih (⟨heap.next, key⟩ :: keys) q.1 cur4 heap.take ho1
                refine ⟨outcome, keys', heap', hrun, ho', Nat.le_trans hnext hle, ?_, ?_⟩
                · exact fun h => hpure (h.part hnext (Nat.le_refl _))
                · exact fun x hx => hgrant.trans (hok x hx)
      · rw [hm]
        refine ⟨_, _, _, rfl, ho.skip, Nat.le_succ _, fun h => ?_, granted_of_ok⟩
        exact absurd h (Allocator.not_granted_skip hg (Nat.le_refl _))

/-- **Reading an object** leaves the blocks that were there. -/
theorem readObjectHeap_cases (A : Allocator)
    (readField : Bytes → σ → Bytes → Except Error (σ × Bytes))
    (context : σ) (cur : Bytes) (heap : Heap) :
    ∃ outcome heap', readObjectHeap A readField context cur heap = some (outcome, heap') ∧
      heap'.live = heap.live ∧ heap.next ≤ heap'.next ∧
      (A.Granted heap heap' → outcome = readObject enoughMemory readField context cur) ∧
      ∀ x, outcome = .ok x → A.Granted heap heap' := by
  unfold readObjectHeap readObject
  cases consume OPEN_BRACE cur with
  | none => exact ⟨_, _, rfl, rfl, Nat.le_refl _, fun _ => rfl, nofun⟩
  | some cur1 =>
    dsimp only
    cases consume CLOSE_BRACE cur1 with
    | some r =>
      exact ⟨_, _, rfl, rfl, Nat.le_refl _, fun _ => rfl, fun _ _ => Allocator.Granted.refl A rfl⟩
    | none =>
      dsimp only
      obtain ⟨outcome, keys, heap1, hrun, ho, hle, hpure, hok⟩ :=
        objectLoopHeap_cases A readField (cur1.length + 1) [] context cur1 heap (.start heap)
      obtain ⟨heap', hfree, hlive, hnext⟩ := ho.freeAll
      rw [hrun]
      dsimp only
      rw [hfree]
      refine ⟨outcome, heap', rfl, hlive, by omega, ?_, ?_⟩
      · exact fun h => hpure (h.part (Nat.le_refl _) (Nat.le_of_eq hnext.symm))
      · exact fun x hx => (hok x hx).part (Nat.le_refl _) (Nat.le_of_eq hnext)

end

/-! ## the decoded strings on the heap -/

/-- `auth_request_t`; `none` is a zeroed string -/
structure AuthRequestT where
  username : Option OwnedString := none
  password : Option OwnedString := none
  deriving DecidableEq, Repr

/-- `free` of a `string_t`, which may be zeroed -/
def freeString (s : Option OwnedString) (heap : Heap) : Option Heap :=
  match s with
  | none => some heap
  | some s => heap.free s.ptr

/-- `free_auth_request`; the heap does not keep what is wiped before it is released -/
def freeAuthRequest (request : AuthRequestT) (heap : Heap) : Option (AuthRequestT × Heap) := do
  let heap ← freeString request.username heap
  let heap ← freeString request.password heap
  some ({}, heap)

/-- what is checked behind the decoding -/
def authRequestValid : AuthRequestT → Bool
  | ⟨some username, some password⟩ =>
    if username.len < 3 ∨ username.len > 32 ∨ password.len < 8 ∨ password.len > 128 ∨
        password.text.contains 0 then false
    else username.text.all isUsernameByte
  | _ => false

/-- the code of an error -/
def Error.code : Error → Int
  | .invalid => -1
  | .oom => -2

/-- `json_to_auth_request`: what it returns, `*request`, and the heap -/
def jsonToAuthRequestHeap (A : Allocator) (json : Bytes) (heap : Heap) :
    Option (Int × AuthRequestT × Heap) :=
  if json = [] ∨ json.length ≥ 65536 then some (-1, {}, heap)
  else do
    let (outcome, heap) ← readObjectHeap A readAuthField {} json heap
    match outcome with
    | .error e => some (e.code, {}, heap)
    | .ok (parsed, cur) =>
      if parsed.fields ≠ 3 ∨ skipWhitespace cur ≠ [] then some (-1, {}, heap)
      else do
        let (result, username, heap) ← decodeSlice A parsed.username heap
        let (result, password, heap) ←
          if result = 0 then decodeSlice A parsed.password heap else some (result, none, heap)
        let request := ⟨username, password⟩
        if result ≠ 0 then do
          let (request, heap) ← freeAuthRequest request heap
          some (result, request, heap)
        else if authRequestValid request then some (0, request, heap)
        else do
          let (request, heap) ← freeAuthRequest request heap
          some (-1, request, heap)

theorem authRequestValid_iff {username password : OwnedString} {u p : List Char}
    (hu : username.len = (encode u).length) (hut : username.text = encode u)
    (hp : password.len = (encode p).length) (hpt : password.text = encode p) :
    authRequestValid ⟨some username, some password⟩ = true ↔ Acceptable u p := by
  rw [← acceptable_iff, authRequestValid, hu, hut, hp, hpt]
  unfold validUsername validPassword
  split
  · next hbad =>
    constructor
    · intro h
      cases h
    · intro h
      simp only [Bool.and_eq_true, decide_eq_true_eq, Bool.not_eq_true'] at h
      obtain ⟨⟨⟨h1, h2⟩, -⟩, ⟨h3, h4⟩, h5⟩ := h
      simp only [h5, Bool.false_eq_true, or_false] at hbad
      omega
  · next hgood =>
    simp only [not_or, Nat.not_lt, Bool.not_eq_true] at hgood
    obtain ⟨h1, h2, h3, h4, h5⟩ := hgood
    simp only [h1, h2, h3, h4, h5, decide_true, Bool.true_and, Bool.not_false, Bool.and_true]

theorem Error.code_ne (e : Error) : e.code ≠ 0 := by cases e <;> decide

/-- **One string is decoded**: its block is owned, or nothing is. -/
theorem decodeSlice_owned (A : Allocator) (slice : Bytes) {base : Finset Nat} {ps : List Nat}
    (heap : Heap) (ho : heap.Owns base ps) :
    ∃ result out heap', decodeSlice A slice heap = some (result, out, heap') ∧
      heap.next ≤ heap'.next ∧
      ((result ≠ 0 ∧ out = none ∧ heap'.Owns base ps ∧
        (A.Granted heap heap' → ¬ ∃ x, Denotes slice x)) ∨
        (result = 0 ∧ A.Granted heap heap' ∧ ∃ s x, out = some s ∧ heap'.Owns base (s.ptr :: ps) ∧
          Denotes slice x ∧ s.len = (encode x).length ∧ s.text = encode x)) := by
  rcases decodeSlice_cases A slice heap with
    ⟨hd, hrun⟩ | ⟨x, hx, ⟨hg, hrun⟩ | ⟨hg, s, hrun, hptr, -, hlen, htext, -⟩⟩
  · exact ⟨_, _, _, hrun, Nat.le_refl _, .inl ⟨by decide, rfl, ho, fun _ => hd⟩⟩
  · refine ⟨_, _, _, hrun, Nat.le_succ _, .inl ⟨by decide, rfl, ho.skip, fun h => ?_⟩⟩
    exact absurd h (Allocator.not_granted_skip hg (Nat.le_refl _))
  · refine ⟨_, _, _, hrun, Nat.le_succ _, .inr ⟨rfl, Allocator.granted_take hg, s, x, rfl, ?_, hx,
      hlen, htext⟩⟩
    rw [hptr]
    exact ho.take

/-- a call that fails: the request is zeroed, nothing is left allocated, and the object was not one
or memory was refused -/
structure AuthFailed (A : Allocator) (json : Bytes) (heap : Heap) (code : Int)
    (request : AuthRequestT) (heap' : Heap) : Prop where
  code : code ≠ 0
  zero : request = {}
  live : heap'.live = heap.live
  reason : A.Granted heap heap' → ¬ ∃ u p, AuthObject json u p ∧ Acceptable u p

/-- a call that succeeds: the two strings own the blocks that are new, and hold the credentials -/
structure AuthTaken (A : Allocator) (json : Bytes) (heap : Heap) (code : Int)
    (request : AuthRequestT)
    (heap' : Heap) (username password : OwnedString) (u p : List Char) : Prop where
  code : code = 0
  granted : A.Granted heap heap'
  request : request = ⟨some username, some password⟩
  owns : heap'.Owns heap.live [password.ptr, username.ptr]
  object : AuthObject json u p
  acceptable : Acceptable u p
  usernameText : username.text = encode u
  passwordText : password.text = encode p

/-- **Every call fails or succeeds in these ways.** -/
theorem jsonToAuthRequestHeap_cases (A : Allocator) (json : Bytes) (heap : Heap)
    (h1 : 1 ≤ json.length) (h2 : json.length ≤ 65535) :
    ∃ code request heap', jsonToAuthRequestHeap A json heap = some (code, request, heap') ∧
      (AuthFailed A json heap code request heap' ∨
        ∃ username password u p, AuthTaken A json heap code request heap' username
        password u p) := by
  obtain ⟨outcome, heap1, hread, hlive1, hnext1, hpure, hok⟩ :=
    readObjectHeap_cases A readAuthField {} json heap
  have hne : json ≠ [] := by
    rintro rfl
    cases h1
  unfold jsonToAuthRequestHeap
  rw [if_neg (not_or.mpr ⟨hne, by omega⟩)]
  simp only [hread, Option.bind_eq_bind, Option.bind_some]
  cases outcome with
  | error e =>
    refine ⟨_, _, _, rfl, .inl ⟨e.code_ne, rfl, hlive1, ?_⟩⟩
    rintro hg ⟨u, p, hobj, -⟩
    obtain ⟨vu, vp, rest, h3, -⟩ := (authObject_read json u p).mp hobj
    have h4 := hpure hg
    rw [h3] at h4
    cases h4
  | ok x =>
    obtain ⟨parsed, cur⟩ := x
    have hg1 := hok _ rfl
    have hpure1 := (hpure hg1).symm
    dsimp only
    by_cases hfields : parsed.fields ≠ 3 ∨ skipWhitespace cur ≠ []
    · rw [if_pos hfields]
      refine ⟨_, _, _, rfl, .inl ⟨by decide, rfl, hlive1, ?_⟩⟩
      rintro - ⟨u, p, hobj, -⟩
      obtain ⟨vu, vp, rest, h3, h4, -⟩ := (authObject_read json u p).mp hobj
      rw [hpure1, Except.ok.injEq, Prod.mk.injEq] at h3
      obtain ⟨rfl, rfl⟩ := h3
      exact hfields.elim (fun h => h rfl) fun h => h ((skipWhitespace_nil_iff _).mpr h4)
    rw [if_neg hfields]
    rw [not_or, not_not, not_not] at hfields
    -- the object denotes what the two slices denote
    have hobj : ∀ u p, AuthObject json u p ↔ Denotes parsed.username u ∧
      Denotes parsed.password p := by
      intro u p
      rw [authObject_read, hpure1]
      constructor
      · rintro ⟨vu, vp, rest, h3, -, hu, hp⟩
        rw [Except.ok.injEq, Prod.mk.injEq] at h3
        obtain ⟨rfl, rfl⟩ := h3
        exact ⟨hu, hp⟩
      · rintro ⟨hu, hp⟩
        refine ⟨parsed.username, parsed.password, cur, ?_, (skipWhitespace_nil_iff cur).mp
          hfields.2, hu, hp⟩
        rw [← hfields.1]
    have ho1 : heap1.Owns heap.live [] := by
      rw [← hlive1]
      exact .start heap1
    obtain ⟨result1, out1, heap2, hrun2, hnext2, hd2⟩ :=
      decodeSlice_owned A parsed.username heap1 ho1
    simp only [hrun2, Option.bind_some]
    rcases hd2 with ⟨hres1, rfl, ho2, hno2⟩ | ⟨rfl, hg2, username, u, rfl, ho2, hu, hulen, hutext⟩
    · simp only [hres1, if_false, Option.bind_some, ne_eq, not_false_iff, if_true,
        freeAuthRequest, freeString,
        Option.bind_eq_bind]
      refine ⟨_, _, _, rfl, .inl ⟨hres1, rfl, by simpa using ho2.live, ?_⟩⟩
      rintro hg ⟨u, p, h3, -⟩
      exact hno2 (hg.part hnext1 (Nat.le_refl _)) ⟨u, ((hobj u p).mp h3).1⟩
    obtain ⟨result2, out2, heap3, hrun3, hnext3, hd3⟩ :=
      decodeSlice_owned A parsed.password heap2 ho2
    simp only [if_true, hrun3, Option.bind_some]
    rcases hd3 with ⟨hres2, rfl, ho3, hno3⟩ | ⟨rfl, hg3, password, p, rfl, ho3, hp, hplen, hptext⟩
    · obtain ⟨heap4, hfree, ho4, hnext4⟩ := ho3.free
      simp only [hres2, ne_eq, not_false_iff, if_true, freeAuthRequest, freeString,
        Option.bind_eq_bind, hfree,
        Option.bind_some]
      refine ⟨_, _, _, rfl, .inl ⟨hres2, rfl, by simpa using ho4.live, ?_⟩⟩
      rintro hg ⟨u, p, h3, -⟩
      exact hno3 (hg.part (by omega) (by omega)) ⟨p, ((hobj u p).mp h3).2⟩
    have hg : A.Granted heap heap3 := (hg1.trans hg2).trans hg3
    have hobject : AuthObject json u p := (hobj u p).mpr ⟨hu, hp⟩
    have hvalid := authRequestValid_iff hulen hutext hplen hptext
    by_cases hacc : Acceptable u p
    · simp only [ne_eq, not_true, if_false, hvalid.mpr hacc, if_true]
      exact ⟨_, _, _, rfl, .inr ⟨username, password, u, p, rfl, hg, rfl, ho3, hobject, hacc,
        hutext, hptext⟩⟩
    · obtain ⟨heap4, hfree4, ho4, hnext4⟩ := (ho3.perm (List.Perm.swap _ _ _)).free
      obtain ⟨heap5, hfree5, ho5, hnext5⟩ := ho4.free
      simp only [ne_eq, not_true, if_false, mt hvalid.mp hacc, Bool.false_eq_true,
        freeAuthRequest, freeString,
        Option.bind_eq_bind, hfree4, hfree5, Option.bind_some]
      refine ⟨_, _, _, rfl, .inl ⟨by decide, rfl, by simpa using ho5.live, ?_⟩⟩
      rintro - ⟨u', p', h3, h4⟩
      obtain ⟨rfl, rfl⟩ := hobject.unique h3
      exact hacc h4

/-- **The body of credentials**, by the object that it denotes.  The call returns 0 exactly when no
request for memory is refused and the body is an object with acceptable credentials; these are then
the texts of the two strings, whose blocks are what is allocated beyond the blocks that were there.
Else the request is zeroed and nothing is left allocated. -/
theorem jsonToAuthRequest_denotes (A : Allocator) (json : Bytes) (heap : Heap)
    (h1 : 1 ≤ json.length) (h2 : json.length ≤ 65535) :
    ∃ code request heap', jsonToAuthRequestHeap A json heap = some (code, request, heap') ∧
      (code = 0 ↔ A.Granted heap heap' ∧ ∃ u p, AuthObject json u p ∧ Acceptable u p) ∧
      (code = 0 → ∃ username password, request = ⟨some username, some password⟩ ∧
        heap'.Owns heap.live [password.ptr, username.ptr] ∧
        ∀ u p, AuthObject json u p → username.text = encode u ∧ password.text = encode p) ∧
      (code ≠ 0 → request = {} ∧ heap'.live = heap.live) ∧
      ∀ u p u' p', AuthObject json u p → AuthObject json u' p' → u = u' ∧ p = p' := by
  obtain ⟨code, request, heap', hrun, hf | ⟨username, password, u, p, ht⟩⟩ :=
    jsonToAuthRequestHeap_cases A json heap h1 h2
  · refine ⟨code, request, heap', hrun,
      ⟨fun h => absurd h hf.code, fun h => absurd h.2 (hf.reason h.1)⟩,
      fun h => absurd h hf.code, fun _ => ⟨hf.zero, hf.live⟩, fun u p u' p' => AuthObject.unique⟩
  · refine ⟨code, request, heap', hrun, ⟨fun _ => ⟨ht.granted, u, p, ht.object, ht.acceptable⟩,
      fun _ => ht.code⟩,
      fun _ => ⟨username, password, ht.request, ht.owns, ?_⟩, fun h => absurd ht.code h,
      fun u p u' p' => AuthObject.unique⟩
    intro u' p' h
    obtain ⟨rfl, rfl⟩ := ht.object.unique h
    exact ⟨ht.usernameText, ht.passwordText⟩

/-- an allocator that refuses the requests from number `n` on -/
def refusesFrom (n : Nat) : Allocator :=
  ⟨fun k => k < n, fun _ n => List.replicate n 0, fun _ _ => List.length_replicate⟩

/-- credentials with an escape in a key and in a value -/
def escapedAuth : Bytes :=
  ascii "\x7b\"\\u0075sername\":\"\\u0061bc\",\"password\":\"12345678\"\x7d"

/-- the body in a heap that grants every request, and in one that refuses all but two -/
theorem jsonToAuthRequest_denotes_sample :
    (∃ request heap', jsonToAuthRequestHeap (refusesFrom 100) escapedAuth ⟨∅, 0, by simp⟩ =
      some (0, request, heap') ∧
      ∃ username password, request = ⟨some username, some password⟩ ∧
      heap'.Owns ∅ [password.ptr, username.ptr] ∧
        username.text = ascii "abc" ∧ password.text = ascii "12345678") ∧
      ∃ heap', jsonToAuthRequestHeap (refusesFrom 2) escapedAuth ⟨∅, 0, by simp⟩ =
        some (-2, {}, heap') ∧ heap'.live = ∅ := by
  constructor
  · obtain ⟨code, request, heap', hrun, -, htaken, -, -⟩ :=
      jsonToAuthRequest_denotes (refusesFrom 100) escapedAuth ⟨∅, 0, by simp⟩
        (by decide) (by decide)
    have hcode : (jsonToAuthRequestHeap (refusesFrom 100) escapedAuth ⟨∅, 0, by simp⟩).map Prod.fst
      = some 0 := by
      decide +kernel
    obtain ⟨-, u, p, hobject, -, htexts⟩ :=
      (jsonToAuthRequest_iff escapedAuth ⟨ascii "abc", ascii "12345678"⟩).mp
      (by decide +kernel)
    rw [hrun] at hcode
    obtain rfl := Option.some.inj hcode
    obtain ⟨username, password, hrequest, howns, hdenotes⟩ := htaken rfl
    rw [AuthRequest.mk.injEq] at htexts
    exact ⟨request, heap', hrun, username, password, hrequest, howns, (hdenotes u p hobject).1.trans
      htexts.1.symm,
      (hdenotes u p hobject).2.trans htexts.2.symm⟩
  · obtain ⟨code, request, heap', hrun, -, -, hfailed, -⟩ :=
      jsonToAuthRequest_denotes (refusesFrom 2) escapedAuth ⟨∅, 0, by simp⟩ (by decide) (by decide)
    have hcode : (jsonToAuthRequestHeap (refusesFrom 2) escapedAuth ⟨∅, 0, by simp⟩).map Prod.fst =
      some (-2) := by
      decide +kernel
    rw [hrun] at hcode
    obtain rfl := Option.some.inj hcode
    obtain ⟨rfl, hlive⟩ := hfailed (by decide)
    exact ⟨heap', hrun, hlive⟩

/-- **What the handlers see of it**: a call that returns 0 takes what `jsonToAuthRequest` takes
where memory suffices. -/
theorem jsonToAuthRequestHeap_refines (A : Allocator) (json : Bytes) (heap : Heap)
    (h1 : 1 ≤ json.length) (h2 : json.length ≤ 65535) :
    ∃ code request heap', jsonToAuthRequestHeap A json heap = some (code, request, heap') ∧
      (A.Granted heap heap' → (code = 0 ↔ ∃ r, jsonToAuthRequest enoughMemory true true
        json = .ok r)) ∧
      (code = 0 → ∃ username password, request = ⟨some username, some password⟩ ∧
        jsonToAuthRequest enoughMemory true true json = .ok ⟨username.text, password.text⟩) := by
  obtain ⟨code, request, heap', hrun, hf | ⟨username, password, u, p, ht⟩⟩ :=
    jsonToAuthRequestHeap_cases A json heap h1 h2
  · refine ⟨code, request, heap', hrun, fun hg => ⟨fun h => absurd h hf.code, ?_⟩, fun h =>
      absurd h hf.code⟩
    rintro ⟨r, hr⟩
    obtain ⟨-, u, p, hobj, hacc, -⟩ := (jsonToAuthRequest_iff json r).mp hr
    exact absurd ⟨u, p, hobj, hacc⟩ (hf.reason hg)
  · have hpure : jsonToAuthRequest enoughMemory true true json =
      .ok ⟨username.text, password.text⟩ := by
      refine (jsonToAuthRequest_iff json _).mpr ⟨by omega, u, p, ht.object, ht.acceptable, ?_⟩
      rw [ht.usernameText, ht.passwordText]
    exact ⟨code, request, heap', hrun, fun _ => ⟨fun _ => ⟨_, hpure⟩, fun _ => ht.code⟩,
      fun _ => ⟨username, password, ht.request, hpure⟩⟩

end Json

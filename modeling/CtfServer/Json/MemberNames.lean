import CtfServer.Json.Fields

/-!
# The names of members

`read_object` and the readers of challenges and answers compare keys byte by byte;
`json_to_auth_request` compares them decoded.  Where a body spells a name in two ways, the two
differ.

* `sameName a b`       the keys are equal, or decode alike;
* `DistinctNames`      no two keys of an object are the same name;
* `OneSpelling`        no two keys of an object are different spellings of one name;
* `challengeByName_iff`, `answerByName_iff`   an accepted body is read by name exactly when it
                                              spells each name in one way.
-/

set_option linter.unusedVariables false
set_option linter.unusedSimpArgs false

namespace Json

/-- the keys are equal, or decode alike -/
def sameName (a b : Bytes) : Bool :=
  a == b || ((codepoints a).isSome && codepoints a == codepoints b)

theorem sameName_iff (a b : Bytes) :
    sameName a b = true ↔ a = b ∨ ∃ x, codepoints a = some x ∧ codepoints b = some x := by
  unfold sameName
  rw [Bool.or_eq_true, Bool.and_eq_true, beq_iff_eq, beq_iff_eq, Option.isSome_iff_exists]
  constructor
  · rintro (h | ⟨⟨x, hx⟩, h⟩)
    · exact Or.inl h
    · exact Or.inr ⟨x, hx, h ▸ hx⟩
  · rintro (h | ⟨x, hx, hy⟩)
    · exact Or.inl h
    · exact Or.inr ⟨⟨x, hx⟩, hx.trans hy.symm⟩

theorem sameName_refl (a : Bytes) : sameName a a = true := (sameName_iff a a).mpr (Or.inl rfl)

theorem sameName_symm {a b : Bytes} (h : sameName a b = true) : sameName b a = true := by
  rw [sameName_iff] at h ⊢
  rcases h with h | ⟨x, hx, hy⟩
  · exact Or.inl h.symm
  · exact Or.inr ⟨x, hy, hx⟩

theorem sameName_trans {a b c : Bytes} (h : sameName a b = true) (h' : sameName b c = true) :
    sameName a c = true := by
  rw [sameName_iff] at h h' ⊢
  rcases h with rfl | ⟨x, hx, hy⟩
  · exact h'
  · rcases h' with rfl | ⟨y, hy', hz⟩
    · exact Or.inr ⟨x, hx, hy⟩
    · rw [hy] at hy'
      cases hy'
      exact Or.inr ⟨x, hx, hz⟩

/-- no two keys are the same name -/
def DistinctNames (keys : List Bytes) : Prop := keys.Pairwise fun a b => sameName a b = false

/-- no two keys are different spellings of one name -/
def OneSpelling (keys : List Bytes) : Prop := keys.Pairwise fun a b => sameName a b = true → a = b

theorem distinctNames_iff (keys : List Bytes) :
    DistinctNames keys ↔ keys.Nodup ∧ OneSpelling keys := by
  have hpoint : ∀ a b : Bytes, (sameName a b = false ↔ a ≠ b ∧ (sameName a b = true → a = b)) := by
    intro a b
    constructor
    · intro h
      refine ⟨?_, fun h' => by rw [h] at h'; cases h'⟩
      rintro rfl
      rw [sameName_refl] at h
      cases h
    · rintro ⟨h1, h2⟩
      exact Bool.eq_false_iff.mpr fun h => h1 (h2 h)
  unfold DistinctNames OneSpelling List.Nodup
  simp only [hpoint, List.pairwise_and_iff]

/-- `v` is the value of the only member that has this name -/
def ValueOf (ps : List (Bytes × Bytes)) (name v : Bytes) : Prop :=
  ∃ key, ps.filter (fun p => sameName p.1 name) = [(key, v)]

theorem valueOf_of_mem {ps : List (Bytes × Bytes)} {name v : Bytes}
    (hd : DistinctNames (ps.map Prod.fst)) (h : (name, v) ∈ ps) : ValueOf ps name v := by
  refine ⟨name, ?_⟩
  induction ps with
  | nil => cases h
  | cons p ps ih =>
    obtain ⟨h1, h2⟩ := List.pairwise_cons.mp hd
    rcases List.mem_cons.mp h with rfl | hmem
    · rw [List.filter_cons_of_pos (by exact sameName_refl name), List.filter_eq_nil_iff.mpr]
      intro q hq hs
      have h3 := h1 q.1 (List.mem_map_of_mem hq)
      rw [sameName_symm hs] at h3
      cases h3
    · rw [List.filter_cons_of_neg, ih h2 hmem]
      intro hs
      have h3 := h1 name (List.mem_map_of_mem (f := Prod.fst) hmem)
      rw [hs] at h3
      cases h3

/-! ## two readings of one body -/

theorem Document.mono {distinct distinct' : List Bytes → Prop}
    (hd : ∀ keys, distinct keys → distinct' keys) {depth : Nat}
    {text : Bytes} (h : Document distinct depth text) : Document distinct' depth text := by
  obtain ⟨w, v, u, hw, hv, hu, htext⟩ := h
  exact ⟨w, v, u, hw, ValueAt.mono hd (show ValueAt _ (depth + 1) v from hv), hu, htext⟩

theorem TopMembers.document {distinct : List Bytes → Prop} {text : Bytes}
    {ps : List (Bytes × Bytes)}
    (h : TopMembers distinct text ps) (hd : distinct (ps.map Prod.fst)) :
    Document distinct MAX_JSON_DEPTH text := by
  obtain ⟨w, ms, w', hw, hw', hb, htext⟩ := h
  refine ⟨w, 0x7b :: (ms ++ [0x7d]), w', hw, ?_, hw', by rw [htext]; simp⟩
  exact value_shape.mpr (.object hb (Or.inr hd))

/-- the members that one reading finds are those that the other finds -/
theorem TopMembers.and {distinct distinct' : List Bytes → Prop} {text : Bytes}
    {ps : List (Bytes × Bytes)}
    (h : TopMembers distinct text ps) (h' : Document distinct' MAX_JSON_DEPTH text) :
    TopMembers (fun keys => distinct keys ∧ distinct' keys) text ps ∧
      (ps = [] ∨ distinct' (ps.map Prod.fst)) := by
  obtain ⟨w, ms, u, hw, hu, hb, rfl⟩ := h
  obtain ⟨w', v', u', hw', hv', hu', he⟩ := h'
  have hother : ∀ {x : UInt8} {t : Bytes}, isSpace x = false → x ≠ 0x7b → v' ≠ x :: t := by
    rintro x t hx hne rfl
    obtain ⟨-, h1, -⟩ := ws_unique hw hw' (c := 0x7b) (by decide) hx he
    exact hne h1.symm
  have hs := value_shape.mp hv'
  cases hs with
  | scalar h =>
    obtain ⟨x, t, hx, h1, -, -, h2, -⟩ := h.head
    exact absurd hx (hother h1 h2)
  | string => exact absurd rfl (hother (by decide) (by decide))
  | array => exact absurd rfl (hother (by decide) (by decide))
  | @object ps' ms' hb' hd' =>
    obtain ⟨-, -, h1⟩ := ws_unique hw hw' (c := 0x7b) (d := 0x7b) (by decide) (by decide) he
    obtain ⟨rfl, rfl, rfl⟩ := hb.unique (valueAt_unique distinct distinct' _ _) (valueAt_opens _ _)
      (valueAt_opens _ _) hb'
      (r := u) (s := u') (by simpa using h1)
    exact ⟨⟨w, ms, u, hw, hu, hb.both (fun _ => ValueAt.and) hb', rfl⟩, hd'⟩

theorem TopMembers.mono {distinct distinct' : List Bytes → Prop}
    (hd : ∀ keys, distinct keys → distinct' keys) {text : Bytes}
    {ps : List (Bytes × Bytes)} (h : TopMembers distinct text ps) :
    TopMembers distinct' text ps := by
  obtain ⟨w, ms, w', hw, hw', hb, htext⟩ := h
  exact ⟨w, ms, w', hw, hw', hb.both (fun _ hv _ => hv.mono hd) hb, htext⟩

/-- a body that spells each name in one way has members with distinct names -/
theorem TopMembers.distinctNames {text : Bytes} {ps : List (Bytes × Bytes)}
    (h : TopMembers List.Nodup text ps)
    (hnd : (ps.map Prod.fst).Nodup) (hone : Document OneSpelling MAX_JSON_DEPTH text) :
    TopMembers DistinctNames text ps ∧ DistinctNames (ps.map Prod.fst) := by
  obtain ⟨h1, h2⟩ := h.and hone
  refine ⟨h1.mono fun keys => (distinctNames_iff keys).mpr, ?_⟩
  rcases h2 with rfl | h2
  · exact List.Pairwise.nil
  · exact (distinctNames_iff _).mpr ⟨hnd, h2⟩

/-! ## the fields of a challenge, by name -/

/-- no object of the body has two members of one name, and each field of the request is the value
of the only member of its name -/
structure ChallengeByName (json : Bytes) (request : CreateChallengeRequest) : Prop where
  distinct : Document DistinctNames MAX_JSON_DEPTH json
  fields : ∃ ps, TopMembers DistinctNames json ps ∧ ValueOf ps (ascii "name") (quote request.name) ∧
    ValueOf ps (ascii "description") (quote request.description) ∧ ValueOf ps (ascii "flag")
    (quote request.flag) ∧
      ValueOf ps (ascii "genre") (quote (ctfGenreToString request.genre))

theorem testBit_or (n m i : Nat) (hm : m.testBit i = false) :
    (n ||| m).testBit i = n.testBit i := by
  rw [Nat.testBit_or, hm, Bool.or_false]

/-- the member that wrote a field -/
theorem challenge_member {α : Type} (name : Bytes) (bit : Nat) (get : CreateChallengeRequest → α)
    (text : α → Bytes)
    (hR : ∀ key v p p', ChallengeField key v p p' → (key = name ∧ v = text (get p'.request)) ∨
      (get p'.request = get p.request ∧ p'.fields.testBit bit = p.fields.testBit bit))
    (hbit : (15 : Nat).testBit bit = true) {ps : List (Bytes × Bytes)}
      {request : CreateChallengeRequest}
    (h : Steps ChallengeField ps {} ⟨request, 15⟩) : (name, text (get request)) ∈ ps := by
  have hput := Steps.put name (fun v p => v = text (get p.request))
    (fun p : CreateChallengeParser => (get p.request, p.fields.testBit bit))
    (fun key v p p' hR' => (hR key v p p' hR').imp id fun h1 => Prod.ext h1.1 h1.2)
    (fun v p p' hsame hv => hv.trans (congrArg text (congrArg Prod.fst hsame).symm)) h
  rcases hput with ⟨v, hv, rfl⟩ | hsame
  · exact hv
  · have h1 : (15 : Nat).testBit bit = (0 : Nat).testBit bit := congrArg Prod.snd hsame
    rw [hbit, Nat.zero_testBit] at h1
    cases h1

theorem challenge_members {ps : List (Bytes × Bytes)} {request : CreateChallengeRequest}
    (h : Steps ChallengeField ps {} ⟨request, 15⟩) :
    (ascii "name", quote request.name) ∈ ps ∧
    (ascii "description", quote request.description) ∈ ps ∧
      (ascii "flag", quote request.flag) ∈ ps ∧
      (ascii "genre", quote (ctfGenreToString request.genre)) ∈ ps := by
  refine ⟨?_, ?_, ?_, ?_⟩
  · refine challenge_member (ascii "name") 0 (·.name) quote (fun key v p p' hR => ?_) (by decide) h
    cases hR with
    | name => exact Or.inl ⟨rfl, rfl⟩
    | description => exact Or.inr ⟨rfl, testBit_or _ 2 0 (by decide)⟩
    | flag => exact Or.inr ⟨rfl, testBit_or _ 4 0 (by decide)⟩
    | genre => exact Or.inr ⟨rfl, testBit_or _ 8 0 (by decide)⟩
    | other => exact Or.inr ⟨rfl, rfl⟩
  · refine challenge_member (ascii "description") 1 (·.description) quote (fun key v p p' hR => ?_)
      (by decide) h
    cases hR with
    | name => exact Or.inr ⟨rfl, testBit_or _ 1 1 (by decide)⟩
    | description => exact Or.inl ⟨rfl, rfl⟩
    | flag => exact Or.inr ⟨rfl, testBit_or _ 4 1 (by decide)⟩
    | genre => exact Or.inr ⟨rfl, testBit_or _ 8 1 (by decide)⟩
    | other => exact Or.inr ⟨rfl, rfl⟩
  · refine challenge_member (ascii "flag") 2 (·.flag) quote (fun key v p p' hR => ?_) (by decide) h
    cases hR with
    | name => exact Or.inr ⟨rfl, testBit_or _ 1 2 (by decide)⟩
    | description => exact Or.inr ⟨rfl, testBit_or _ 2 2 (by decide)⟩
    | flag => exact Or.inl ⟨rfl, rfl⟩
    | genre => exact Or.inr ⟨rfl, testBit_or _ 8 2 (by decide)⟩
    | other => exact Or.inr ⟨rfl, rfl⟩
  · refine challenge_member (ascii "genre") 3 (·.genre) (fun g => quote (ctfGenreToString g))
      (fun key v p p' hR => ?_)
      (by decide) h
    cases hR with
    | name => exact Or.inr ⟨rfl, testBit_or _ 1 3 (by decide)⟩
    | description => exact Or.inr ⟨rfl, testBit_or _ 2 3 (by decide)⟩
    | flag => exact Or.inr ⟨rfl, testBit_or _ 4 3 (by decide)⟩
    | genre => exact Or.inl ⟨rfl, rfl⟩
    | other => exact Or.inr ⟨rfl, rfl⟩

/-- an accepted challenge is read by name exactly when each name is spelled in one way -/
theorem challengeByName_iff {mem : Nat → Bool} {json : Bytes} {request : CreateChallengeRequest}
    (h : jsonToCreateChallengeRequest mem json = .ok request) :
    ChallengeByName json request ↔ Document OneSpelling MAX_JSON_DEPTH json := by
  constructor
  · intro hname
    exact hname.distinct.mono fun keys hk => ((distinctNames_iff keys).mp hk).2
  · intro hone
    obtain ⟨ps, htop, hnd, hst, -⟩ :=
      (jsonToCreateChallengeRequest_iff json request).mp (jsonToCreateChallengeRequest_enough h)
    obtain ⟨htop', hd⟩ := htop.distinctNames hnd hone
    obtain ⟨h1, h2, h3, h4⟩ := challenge_members hst
    exact ⟨htop'.document hd, ps, htop', valueOf_of_mem hd h1, valueOf_of_mem hd h2,
      valueOf_of_mem hd h3,
      valueOf_of_mem hd h4⟩

/-! ## the fields of an answer, by name -/

structure AnswerByName (json : Bytes) (request : SubmitAnswerRequest) : Prop where
  distinct : Document DistinctNames MAX_JSON_DEPTH json
  fields : ∃ ps, TopMembers DistinctNames json ps ∧ ValueOf ps (ascii "answer")
    (quote request.answer) ∧
    ∃ v, ValueOf ps (ascii "challenge_id") v ∧ Numeral v request.challengeId

theorem answer_members {ps : List (Bytes × Bytes)} {request : SubmitAnswerRequest}
    (h : Steps AnswerField ps {} request) (hfit : request.Fits) :
    (ascii "answer", quote request.answer) ∈ ps ∧ ∃ v, (ascii "challenge_id", v) ∈ ps ∧
    Numeral v request.challengeId := by
  constructor
  · have hput := Steps.put (ascii "answer") (fun v q => v = quote q.answer)
      (fun q : SubmitAnswerRequest => q.answer)
      (fun key v q q' hR => by
        cases hR with
        | challengeId => exact Or.inr rfl
        | answer => exact Or.inl ⟨rfl, rfl⟩
        | other => exact Or.inr rfl)
      (fun v q q' hsame hv => hv.trans (congrArg quote hsame.symm)) h
    rcases hput with ⟨v, hv, rfl⟩ | hsame
    · exact hv
    · exact absurd hsame hfit.answerSome
  · have hput := Steps.put (ascii "challenge_id") (fun v q => Numeral v q.challengeId)
      (fun q : SubmitAnswerRequest => q.challengeId)
      (fun key v q q' hR => by
        cases hR with
        | challengeId hn => exact Or.inl ⟨rfl, hn⟩
        | answer => exact Or.inr rfl
        | other => exact Or.inr rfl)
      (fun v q q' hsame hv => hsame ▸ hv) h
    rcases hput with ⟨v, hv, hn⟩ | hsame
    · exact ⟨v, hv, hn⟩
    · exact absurd hsame hfit.positive

/-- an accepted answer is read by name exactly when each name is spelled in one way -/
theorem answerByName_iff {mem : Nat → Bool} {json : Bytes} {request : SubmitAnswerRequest}
    (h : jsonToSubmitAnswerRequest mem json = .ok request) :
    AnswerByName json request ↔ Document OneSpelling MAX_JSON_DEPTH json := by
  constructor
  · intro hname
    exact hname.distinct.mono fun keys hk => ((distinctNames_iff keys).mp hk).2
  · intro hone
    obtain ⟨ps, htop, hnd, hst, hfit⟩ :=
      (jsonToSubmitAnswerRequest_iff json request).mp (jsonToSubmitAnswerRequest_enough h)
    obtain ⟨htop', hd⟩ := htop.distinctNames hnd hone
    obtain ⟨h1, v, h2, h3⟩ := answer_members hst hfit
    exact ⟨htop'.document hd, ps, htop', valueOf_of_mem hd h1, v, valueOf_of_mem hd h2, h3⟩

end Json

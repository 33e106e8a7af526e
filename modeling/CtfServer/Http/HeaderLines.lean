import CtfServer.Http.RequestLine
import Mathlib.Data.List.Forall2

/-!
# The header lines

One turn over `NAME ':' VALUE EOL`, and over all of them.

* `HeaderAt b h x`      the stored header `h` is the line `x`, its value stripped in place;
* `parseHeader_take`    `parse_header` reads the announced length as `takeHeader` does;
* `Keyed`               what the request holds in front of a header line;
* `headers_run`, `headers_split`
-/

set_option linter.unusedVariables false
set_option linter.unusedSimpArgs false

namespace Http

/-! ## names -/

/-- the first letter that `parse_header` looks at does not depend on its case -/
theorem lower_or (c : UInt8) : Bytes.lower c ||| 32 = c ||| 32 := by
  have h : ∀ n : Fin 256, Bytes.lower (UInt8.ofNat n) ||| 32 = UInt8.ofNat n |||
    32 := by decide +kernel
  have h1 := h ⟨c.toNat, c.toNat_lt⟩
  rwa [UInt8.ofNat_toNat] at h1

theorem first_of_eqFold (c d : UInt8) (cs ds : Bytes)
    (h : Bytes.eqFold (c :: cs) (d :: ds) = true) :
    c ||| 32 = d ||| 32 := by
  have h1 := (Bytes.eqFold_iff _ _).mp h
  rw [List.map_cons, List.map_cons] at h1
  rw [← lower_or c, (List.cons.inj h1).1, lower_or]

theorem byteAt_slice {b cs : Bytes} {i n : Nat} {c : UInt8} (h : Bytes.slice b i n = c :: cs) :
    byteAt b i = c := by
  unfold Bytes.slice at h
  cases hd : b.drop i with
  | nil => rw [hd, List.take_nil] at h; cases h
  | cons e l =>
    cases n with
    | zero => cases h
    | succ n =>
      rw [hd, List.take_succ_cons] at h
      rw [(byteAt_drop hd).1]
      exact (List.cons.inj h).1

/-- the header `h`, kept as offsets into `b`, is the line `x` -/
structure HeaderAt (b : Bytes) (h : HttpHeader) (x : HeaderLine) : Prop where
  named : x.name ≠ []
  name : h.nameBytes b = x.name
  nameLen : h.nameLen = x.name.length
  value : h.valueBytes b = x.stripped
  valueLen : h.valueLen = x.stripped.length

section
variable {b : Bytes} {h : HttpHeader} {x : HeaderLine}

theorem HeaderAt.first (H : HeaderAt b h x) (d : UInt8) (ds : Bytes)
    (hn : x.isNamed (d :: ds) = true) : byteAt b h.name ||| 32 = d ||| 32 := by
  cases hx : x.name with
  | nil => exact absurd hx H.named
  | cons c cs =>
    have hs : Bytes.slice b h.name h.nameLen = c :: cs := H.name.trans hx
    rw [byteAt_slice hs]
    unfold HeaderLine.isNamed at hn
    rw [hx] at hn
    exact first_of_eqFold c d cs ds hn

theorem HeaderAt.named_iff (H : HeaderAt b h x) (name : Bytes) :
    (h.nameLen = name.length ∧ Bytes.eqFold (h.nameBytes b) name = true) ↔
    x.isNamed name = true := by
  unfold HeaderLine.isNamed
  rw [H.name, H.nameLen]
  exact ⟨fun h1 => h1.2, fun h1 => ⟨Bytes.eqFold_length _ _ h1, h1⟩⟩

theorem HeaderAt.isNamed (H : HeaderAt b h x) (d : UInt8) (ds : Bytes) :
    h.isNamed b (d :: ds) = x.isNamed (d :: ds) := by
  rw [Bool.eq_iff_iff, ← H.named_iff]
  unfold HttpHeader.isNamed
  simp only [Bool.and_eq_true, beq_iff_eq, List.headD_cons]
  refine ⟨fun h1 => ⟨h1.1.1, h1.2⟩, fun h1 => ⟨⟨h1.1, ?_⟩, h1.2⟩⟩
  exact H.first d ds ((H.named_iff _).mp h1)

end

theorem any_isNamed {b : Bytes} {hl : List HttpHeader} {hs : List HeaderLine}
    (hh : List.Forall₂ (HeaderAt b) hl hs) (d : UInt8) (ds : Bytes) :
    (hl.find? fun h => h.isNamed b (d :: ds)).isSome = hs.any (·.isNamed (d :: ds)) := by
  induction hh with
  | nil => rfl
  | cons h1 _ ih =>
    rw [List.find?_cons, List.any_cons, h1.isNamed]
    split
    · next hn => rw [hn]; rfl
    · next hn => rw [hn, Bool.false_or]; exact ih

/-- `parse_header` on a stored line: the announced length, and two pointers nothing reads back -/
theorem parseHeader_take {b : Bytes} {req : HttpRequest} {hs : List HeaderLine} {x : HeaderLine}
    {h : HttpHeader} (hh : List.Forall₂ (HeaderAt b) req.headers hs) (H : HeaderAt b h x) :
    (∀ n, takeHeader hs req.contentLength x = some n → ∃ ct host, parseHeader b req h
      = some { req with contentLength := n, contentType := ct, host := host }) ∧
    (takeHeader hs req.contentLength x = none → parseHeader b req h = none) := by
  have hcl := H.named_iff contentLengthName
  have hte := H.named_iff transferEncodingName
  have fcl : x.isNamed contentLengthName = true → byteAt b h.name ||| 32 = 99 := H.first 67 _
  have fte : x.isNamed transferEncodingName = true → byteAt b h.name ||| 32 = 116 := H.first 84 _
  have hany : (httpRequestGetHeader b req contentLengthName).isSome = hs.any
    (·.isNamed contentLengthName) :=
    any_isNamed hh 67 _
  have hv0 : h.valueLen = 0 ↔ x.stripped = [] := by rw [H.valueLen, List.length_eq_zero_iff]
  unfold parseHeader takeHeader
  simp only [show 14 = contentLengthName.length from rfl, show 17 =
    transferEncodingName.length from rfl,
    hcl, hte, hany, hv0, H.value]
  by_cases ht : x.isNamed transferEncodingName = true
  · have hf := fte ht
    simp [ht, hf]
  · by_cases hc : x.isNamed contentLengthName = true
    · have hf := fcl hc
      simp only [ht, hc, hf, if_true, if_false, Bool.false_eq_true]
      split
      · simp
      · cases hr : readContentLength x.stripped with
        | none => simp
        | some n =>
          refine ⟨fun m hm => ?_, fun hm => by cases hm⟩
          cases hm
          exact ⟨req.contentType, req.host, rfl⟩
    · simp only [ht, hc, if_false, Bool.false_eq_true]
      refine ⟨fun m hm => ?_, fun hm => by cases hm⟩
      cases hm
      split
      · split
        · exact ⟨h.value, req.host, rfl⟩
        · exact ⟨req.contentType, req.host, rfl⟩
      · split
        · exact ⟨req.contentType, req.host, rfl⟩
        · split
          · split
            · exact ⟨req.contentType, h.value, rfl⟩
            · exact ⟨req.contentType, req.host, rfl⟩
          · exact ⟨req.contentType, req.host, rfl⟩

/-! ## the value, stripped in place -/

/-- where the stripped value starts -/
def valueStart (i : Nat) (u : Bytes) : Option Nat :=
  if Bytes.strip isBlank u = [] then none else some (i + (u.takeWhile isBlank).length)

def takeValues (i : Nat) (u : Bytes) (req : HttpRequest) : HttpRequest :=
  scan (fun i c req => { req with slot := req.slot.takeValue i c }) i u req

theorem scan_append (g : Nat → UInt8 → HttpRequest → HttpRequest) (i : Nat) (u v : Bytes)
    (req : HttpRequest) : scan g i (u ++ v) req = scan g (i + u.length) v (scan g i u req) := by
  induction u generalizing i req with
  | nil => rfl
  | cons c u ih =>
    rw [List.cons_append, scan, ih, scan, List.length_cons]
    congr 1
    omega

theorem isWhitespace_value (c : UInt8) (h : valueByte c = true) : isWhitespace c = isBlank c := by
  unfold valueByte at h
  unfold isWhitespace isBlank
  rw [Bool.and_eq_true] at h
  rw [beq_eq_false_iff_ne.mpr (bne_iff_ne.mp h.1), beq_eq_false_iff_ne.mpr (bne_iff_ne.mp h.2),
    Bool.or_false, Bool.or_false]

/-- the slot behind a value: where the stripped value starts, and how long it is -/
theorem takeValues_eq (i : Nat) (u : Bytes) (req : HttpRequest) (hu : ∀ c ∈ u, valueByte c = true)
    (hv : req.slot.value = none) (hl : req.slot.valueLen = 0) :
    takeValues i u req = { req with slot := { req.slot with
      value := valueStart i u, valueLen := (Bytes.strip isBlank u).length } } := by
  induction u using List.reverseRecOn with
  | nil =>
    have h1 : valueStart i [] = req.slot.value := by rw [hv]; rfl
    have h2 : (Bytes.strip isBlank []).length = req.slot.valueLen := by rw [hl]; rfl
    rw [h1, h2]
    rfl
  | append_singleton u c ih =>
    have hu1 : ∀ d ∈ u, valueByte d = true := fun d hd => hu d (List.mem_append_left _ hd)
    have hc : isWhitespace c = isBlank c := isWhitespace_value c (hu c (by simp))
    have ih' := ih hu1
    unfold takeValues at ih' ⊢
    rw [scan_append, ih', scan, scan]
    unfold HttpHeader.takeValue
    rw [hc]
    cases hb : isBlank c with
    | true =>
      -- a blank is not kept
      rw [if_pos rfl]
      unfold valueStart
      rw [Bytes.strip_concat_drop isBlank u c hb]
      by_cases hn : Bytes.strip isBlank u = []
      · rw [if_pos hn, if_pos hn]
      · rw [if_neg hn, if_neg hn]
        have htake : (u ++ [c]).takeWhile isBlank = u.takeWhile isBlank := by
          rw [List.takeWhile_append]
          split
          · next hlen =>
            refine absurd ((Bytes.strip_eq_nil_iff isBlank u).mpr ?_) hn
            intro d hd
            rw [← (List.takeWhile_prefix isBlank).eq_of_length hlen] at hd
            exact List.mem_takeWhile_imp hd
          · rfl
        rw [htake]
    | false =>
      rw [if_neg (by decide)]
      have hkeep := Bytes.strip_concat_keep isBlank u c hb
      have hne : Bytes.strip isBlank (u ++ [c]) ≠ [] := by rw [hkeep]; simp
      have hsplit := congrArg List.length (List.takeWhile_append_dropWhile (p := isBlank) (l := u))
      rw [List.length_append] at hsplit
      have htake : ((u ++ [c]).takeWhile isBlank).length = (u.takeWhile isBlank).length := by
        rw [List.takeWhile_append]
        split
        · next hlen =>
          rw [List.takeWhile_cons_of_neg (by simp [hb]), List.append_nil, hlen]
        · rfl
      have hlen : (Bytes.strip isBlank (u ++ [c])).length = (u.dropWhile isBlank).length + 1 := by
        rw [hkeep, List.length_append, List.length_singleton]
      unfold valueStart
      rw [if_neg hne, htake, hlen]
      by_cases hn : Bytes.strip isBlank u = []
      · have hall := (Bytes.strip_eq_nil_iff isBlank u).mp hn
        have hdrop : u.dropWhile isBlank = [] := List.dropWhile_eq_nil_iff.mpr hall
        rw [hdrop, List.length_nil] at hsplit ⊢
        simp only [if_pos hn]
        rw [← hsplit, Nat.add_zero]
      · simp only [if_neg hn]
        congr 3
        omega

theorem valueBytes_takeValues {b u l : Bytes} {i : Nat} (h : HttpHeader) (hd : b.drop i = u ++ l)
    (hs : h.value = valueStart i u) (hl : h.valueLen = (Bytes.strip isBlank u).length) :
    h.valueBytes b = Bytes.strip isBlank u := by
  unfold HttpHeader.valueBytes
  rw [hs, hl]
  unfold valueStart
  split
  · next hn => rw [hn, List.length_nil, Bytes.slice_zero]
  · have h1 : Bytes.slice b (i + (u.takeWhile isBlank).length) (Bytes.strip isBlank u).length
        = Bytes.slice (u ++ l) (u.takeWhile isBlank).length (Bytes.strip isBlank u).length := by
      unfold Bytes.slice
      rw [← hd, List.drop_drop]
    rw [Option.getD_some, h1, Bytes.slice_append _ _ _ _ (Bytes.length_strip_le isBlank u),
      Bytes.slice_strip]

/-! ## the states of a header line -/

theorem span_name (b : Bytes) : Span b nameByte (fun req => req.state = .headerName)
    (fun _ _ req => req) where
  step := by
    intro i c l req hS hd hc hi
    obtain ⟨hb, -, -⟩ := byteAt_drop hd
    unfold nameByte at hc
    simp only [Bool.and_eq_true, bne_iff_ne, ne_eq] at hc
    rw [parseStep_head (by rw [hS]; rfl) hi]
    unfold parseByte isWhitespace
    simp [hS, hb, hc, headerComplete]
  keep := fun _ _ _ h _ => h
  head := fun req h => by rw [h]; rfl

theorem scan_name (i : Nat) (u : Bytes) (req : HttpRequest) :
    scan (fun _ _ req => req) i u req = req := by
  induction u generalizing i with
  | nil => rfl
  | cons c u ih => exact ih (i + 1)

theorem span_value (b : Bytes) : Span b valueByte (fun req => req.state = .headerValue)
    (fun i c req => { req with slot := req.slot.takeValue i c }) where
  step := by
    intro i c l req hS hd hc hi
    obtain ⟨hb, -, -⟩ := byteAt_drop hd
    unfold valueByte at hc
    simp only [Bool.and_eq_true, bne_iff_ne, ne_eq] at hc
    rw [parseStep_head (by rw [hS]; rfl) hi]
    unfold parseByte
    simp only [hS, hb, hc.1, hc.2, or_self, if_false]
    simp [headerComplete, hS]
  keep := fun _ _ _ h _ => h
  head := fun req h => by rw [h]; rfl

/-- the header of the slot is counted -/
def pushSlot (req : HttpRequest) : HttpRequest :=
  { req with state := .headerKey, headers := req.headers ++ [req.slot], slot := {} }

theorem headerLf_step (b : Bytes) (i : Nat) (req : HttpRequest) (hs : req.state = .headerLf) :
    ∃ res, res.err.code ≠ .none ∧ (i + 1 < MAX_HEADER_BYTES →
      parseStep b b.length i req
        = if byteAt b i = LF then .next (i + 1) (pushSlot req) else .stop res) := by
  refine ⟨⟨⟨.httpParseFailed, "unexpected lf"⟩, 400, { req with state := .error }⟩, by simp,
    fun hi => ?_⟩
  rw [parseStep_head (by rw [hs]; rfl) hi]
  unfold parseByte
  simp only [hs]
  by_cases hc : byteAt b i = LF
  · rw [if_pos hc, if_pos hc]
    rfl
  · rw [if_neg hc, if_neg hc]
    rfl

theorem lineEnd_value (b : Bytes) (i : Nat) (req : HttpRequest) (hs : req.state = .headerValue) :
    LineEnd b i req ((parseHeader b req req.slot).map pushSlot) where
  head := by rw [hs]; rfl
  refuse := by
    intro ho hc hi
    have hp : parseHeader b req req.slot = none := by simpa using ho
    rw [parseStep_head (by rw [hs]; rfl) hi]
    unfold parseByte
    simp only [hs, hp, hc, if_true]
    exact ⟨_, rfl, by simp⟩
  lf := by
    intro r ho hc hi
    obtain ⟨q, hp, rfl⟩ := Option.map_eq_some_iff.mp ho
    rw [parseStep_head (by rw [hs]; rfl) hi]
    unfold parseByte
    simp only [hs, hp, hc, show ¬ LF = CR by decide, or_true, if_true, if_false]
    rfl
  cr := by
    intro r ho hc hi
    obtain ⟨q, hp, rfl⟩ := Option.map_eq_some_iff.mp ho
    obtain ⟨res, hres, h⟩ := headerLf_step b (i + 1) { q with state := .headerLf } rfl
    refine ⟨_, res, rfl, hres, ?_, h⟩
    rw [parseStep_head (by rw [hs]; rfl) hi]
    unfold parseByte
    simp only [hs, hp, hc, true_or, if_true]
    rfl

/-! ## one header line -/

/-- what the request holds in front of a header line: the request line, the lines `hs`, and the
length `n` they announce -/
structure Keyed (b : Bytes) (m : HttpMethod) (u : Bytes) (ver : HttpVersion) (hs : List HeaderLine)
    (n : Nat) (req : HttpRequest) : Prop where
  method : req.method = m
  uri : ∃ s, req.uri = some s ∧ Bytes.slice b s req.uriLen = u
  version : req.version = ver
  body : req.body = none
  read : req.bodyBytesRead = 0
  state : req.state = .headerKey
  slot : req.slot = {}
  headers : List.Forall₂ (HeaderAt b) req.headers hs
  length : req.contentLength = n

section
variable {b : Bytes} {m : HttpMethod} {u : Bytes} {ver : HttpVersion}
  {hs : List HeaderLine} {n : Nat}
  {req : HttpRequest}

theorem Keyed.count (K : Keyed b m u ver hs n req) : req.headers.length = hs.length :=
  K.headers.length_eq

/-- the request inside a value -/
def inValue (req : HttpRequest) (slot : HttpHeader) : HttpRequest :=
  { req with state := .headerValue, slot := slot }

theorem lineEnd_inValue (b : Bytes) (i : Nat) (req : HttpRequest) (slot : HttpHeader) :
    LineEnd b i (inValue req slot) ((parseHeader b (inValue req slot) slot).map pushSlot) :=
  lineEnd_value b i (inValue req slot) rfl

/-- the first byte of a header line opens a name -/
theorem headerKey_step {c : UInt8} {l : Bytes} {i : Nat} (K : Keyed b m u ver hs n req)
    (hd : b.drop i = c :: l) (hc1 : c ≠ CR) (hc2 : c ≠ LF) (hi : i + 1 < MAX_HEADER_BYTES) :
    (nameStart c = true ∧ hs.length < MAX_HEADERS ∧ parseStep b b.length i req
      = .next (i + 1) { req with state := .headerName, slot := { name := i } }) ∨
    (¬ (nameStart c = true ∧ hs.length < MAX_HEADERS) ∧
      ∃ res, parseStep b b.length i req = .stop res ∧ res.err.code ≠ .none) := by
  obtain ⟨hb, -, -⟩ := byteAt_drop hd
  rw [parseStep_head (by rw [K.state]; rfl) hi]
  unfold parseByte nameStart
  simp only [K.state, hb, hc1, hc2, if_false, K.count, K.slot]
  by_cases hcol : c = COLON
  · refine Or.inr ⟨fun h => ?_, ?_⟩
    · simp [hcol] at h
    · rw [if_pos hcol]
      exact ⟨_, rfl, by simp⟩
  · by_cases hlen : hs.length ≥ MAX_HEADERS
    · refine Or.inr ⟨fun h => by omega, ?_⟩
      rw [if_neg hcol, if_pos hlen]
      exact ⟨_, rfl, by simp⟩
    · refine Or.inl ⟨by simp [hc1, hc2, hcol], by omega, ?_⟩
      rw [if_neg hcol, if_neg hlen]
      rfl

theorem colon_step {l : Bytes} {i s : Nat} (r : HttpRequest) (hd : b.drop i = COLON :: l)
    (hr : r.state = .headerName) (hslot : r.slot = { name := s }) (hi : i + 1 < MAX_HEADER_BYTES) :
    parseStep b b.length i r = .next (i + 1) (inValue r { name := s, nameLen := i - s }) := by
  obtain ⟨hb, -, -⟩ := byteAt_drop hd
  rw [parseStep_head (by rw [hr]; rfl) hi]
  unfold parseByte
  simp only [hr, hb, hslot, show isWhitespace COLON = false by decide, if_true, if_false,
    Bool.false_eq_true]
  rfl

theorem name_run {c : UInt8} {cs l : Bytes} {i : Nat} (K : Keyed b m u ver hs n req)
    (hd : b.drop i = c :: (cs ++ COLON :: l)) (hc : nameStart c = true)
    (hcs : ∀ d ∈ cs, nameByte d = true) (hlen : hs.length < MAX_HEADERS)
    (hi : i + (cs.length + 2) < MAX_HEADER_BYTES) :
    runFrom b i req = runFrom b (i + (cs.length + 2))
      (inValue req { name := i, nameLen := cs.length + 1 }) := by
  have hc' := hc
  unfold nameStart at hc'
  simp only [Bool.and_eq_true, bne_iff_ne, ne_eq] at hc'
  have hstep := (headerKey_step K hd hc'.1.1 hc'.1.2 (by omega)).resolve_right
    (fun h => h.1 ⟨hc, hlen⟩)
  have hd1 := (byteAt_drop hd).2.2
  have hd2 := drop_append_length hd1
  rw [runFrom_step req hd, hstep.2.2]
  show runFrom b (i + 1) _ = _
  rw [((span_name b).run rfl hd1 hcs (by omega)).1, scan_name, runFrom_step _ hd2,
    colon_step _ hd2 rfl rfl (by omega)]
  show runFrom b (i + 1 + cs.length + 1)
    (inValue _ { name := i, nameLen := i + 1 + cs.length - i }) = _
  have h1 : i + 1 + cs.length - i = cs.length + 1 := by omega
  have h2 : i + 1 + cs.length + 1 = i + (cs.length + 2) := by omega
  rw [h1, h2]
  rfl

theorem name_split {c : UInt8} {l : Bytes} {i : Nat} (K : Keyed b m u ver hs n req)
    (ha : Accepting b i req) (hd : b.drop i = c :: l) (hc1 : c ≠ CR) (hc2 : c ≠ LF) :
    ∃ cs l', l = cs ++ COLON :: l' ∧ nameStart c = true ∧ (∀ d ∈ cs, nameByte d = true) ∧
      hs.length < MAX_HEADERS ∧ i + (cs.length + 2) < MAX_HEADER_BYTES := by
  obtain ⟨c', l', hd', hi⟩ := ha.cons (by rw [K.state]; rfl)
  rcases headerKey_step K hd hc1 hc2 hi with ⟨hn, hlen, hstep⟩ | ⟨-, res, hstep, hres⟩
  · have ha1 : Accepting b (i + 1) { req with state := .headerName, slot := { name := i } } := by
      unfold Accepting at ha ⊢
      rw [runFrom_step req hd, hstep] at ha
      exact ha
    obtain ⟨cs, e, l1, hd1, hcs, he, hi1, ha2⟩ := (span_name b).split rfl ha1
    rw [scan_name] at ha2
    have hd2 := drop_append_length hd1
    obtain ⟨hb2, -, -⟩ := byteAt_drop hd2
    -- a byte that ends the name is white space, which is refused, or the colon
    have hcol : e = COLON := by
      by_contra hne
      have hw : isWhitespace e = true := by
        unfold nameByte at he
        unfold isWhitespace
        rw [bne_iff_ne.mpr hne, Bool.and_true] at he
        simp only [Bool.and_eq_false_iff, bne_eq_false_iff_eq] at he
        rcases he with ((he | he) | he) | he <;> rw [he] <;> rfl
      refine not_accepting_stop
        (r := ⟨⟨.httpParseFailed, "whitespace is included in field-name"⟩, 400,
        { req with state := .error, slot := { name := i } }⟩) hd2 ?_ (by simp) ha2
      rw [parseStep_head rfl hi1]
      unfold parseByte
      simp only [hb2, hw, if_true]
      rfl
    refine ⟨cs, l1, ?_, hn, hcs, hlen, by omega⟩
    rw [← (byteAt_drop hd).2.2, hd1, hcol]
  · exact absurd ha (not_accepting_stop hd hstep hres)

/-- the slot behind a value holds the line -/
theorem headerAt_slot {x : HeaderLine} {l : Bytes} {i : Nat} (hx : x.name ≠ [])
    (hd : b.drop i = x.name ++ COLON :: (x.value ++ l)) (r : HttpRequest)
    (hv : ∀ c ∈ x.value, valueByte c = true) :
    ∃ slot, takeValues (i + (x.name.length + 1)) x.value
      (inValue r { name := i, nameLen := x.name.length })
      = inValue r slot ∧ HeaderAt b slot x := by
  have hdv : b.drop (i + (x.name.length + 1)) = x.value ++ l := by
    rw [← Nat.add_assoc]
    exact (byteAt_drop (drop_append_length hd)).2.2
  refine ⟨_, takeValues_eq _ _ _ hv rfl rfl, hx, ?_, rfl, ?_, rfl⟩
  · exact slice_drop hd
  · exact valueBytes_takeValues _ hdv rfl rfl

theorem header_run {x : HeaderLine} {l : Bytes} {i n' : Nat} (K : Keyed b m u ver hs n req)
    (hd : b.drop i = x.bytes ++ l) (hx : x.WellFormed) (hlen : hs.length < MAX_HEADERS)
    (hi : i + x.bytes.length < MAX_HEADER_BYTES) (hn : takeHeader hs n x = some n') :
    ∃ req', runFrom b i req = runFrom b (i + x.bytes.length) req' ∧
      Keyed b m u ver (hs ++ [x]) n' req' := by
  obtain ⟨c, cs, hname, hc, hcs⟩ := hx.name
  have hne : x.name ≠ [] := by rw [hname]; simp
  have hnl : x.name.length = cs.length + 1 := by rw [hname]; rfl
  have hxl : x.bytes.length = x.name.length + 1 + x.value.length + x.eol.bytes.length := by
    simp [HeaderLine.bytes]
    omega
  have hd0 : b.drop i = x.name ++ COLON :: (x.value ++ (x.eol.bytes ++ l)) := by
    rw [hd]
    simp [HeaderLine.bytes]
  have hd1 : b.drop i = c :: (cs ++ COLON :: (x.value ++ (x.eol.bytes ++ l))) := by
    rw [hd0, hname]
    rfl
  have hdv : b.drop (i + (x.name.length + 1)) = x.value ++ (x.eol.bytes ++ l) := by
    rw [← Nat.add_assoc]
    exact (byteAt_drop (drop_append_length hd0)).2.2
  obtain ⟨slot, hslot, hat⟩ := headerAt_slot hne hd0 req hx.value
  obtain ⟨ct, host, hp⟩ := (parseHeader_take (show List.Forall₂ _ (inValue req slot).headers _ from
    K.headers) hat).1 n'
    (by rw [← hn, ← K.length]; rfl)
  have hline := lineEnd_inValue b (i + (x.name.length + 1) + x.value.length) req slot
  rw [hp] at hline
  refine ⟨pushSlot { inValue req slot with contentLength := n', contentType := ct, host :=
    host }, ?_, ?_⟩
  · rw [name_run K hd1 hc hcs hlen (by omega), show i + (cs.length + 2) = i +
      (x.name.length + 1) by omega,
      ← hnl, ((span_value b).run rfl hdv hx.value (by omega)).1]
    show runFrom b _ (takeValues _ _ _) = _
    rw [hslot, hline.run (drop_append_length hdv) (by omega),
      show i + (x.name.length + 1) + x.value.length + x.eol.bytes.length = i +
      x.bytes.length by omega]
  · exact ⟨K.method, K.uri, K.version, K.body, K.read, rfl, rfl,
      List.rel_append K.headers (List.Forall₂.cons hat List.Forall₂.nil), rfl⟩

theorem header_split {c : UInt8} {l : Bytes} {i : Nat} (K : Keyed b m u ver hs n req)
    (ha : Accepting b i req) (hd : b.drop i = c :: l) (hc1 : c ≠ CR) (hc2 : c ≠ LF) :
    ∃ x l' n', b.drop i = HeaderLine.bytes x ++ l' ∧ x.WellFormed ∧ hs.length < MAX_HEADERS ∧
      i + x.bytes.length < MAX_HEADER_BYTES ∧ takeHeader hs n x = some n' := by
  obtain ⟨cs, l1, hl, hc, hcs, hlen, hi⟩ := name_split K ha hd hc1 hc2
  subst hl
  have ha1 : Accepting b (i + (cs.length + 2))
    (inValue req { name := i, nameLen := cs.length + 1 }) := by
    unfold Accepting at ha ⊢
    rw [name_run K hd hc hcs hlen hi] at ha
    exact ha
  obtain ⟨v, e, l2, hdv, hv, he, hi2, ha2⟩ := (span_value b).split rfl ha1
  have hcr : e = CR ∨ e = LF := by
    unfold valueByte at he
    simpa only [Bool.and_eq_false_iff, bne_eq_false_iff_eq] using he
  have hl1 : l1 = v ++ e :: l2 := by
    have h1 := drop_append_length (u := c :: (cs ++ [COLON])) (l := l1) (hd.trans (by simp))
    rw [List.length_cons, List.length_append, List.length_singleton] at h1
    rw [← h1]
    exact hdv
  -- the line, but for its end
  have hd0 : b.drop i = (c :: cs) ++ COLON :: (v ++ e :: l2) := by rw [hd, hl1]; rfl
  have hslot := headerAt_slot (x := ⟨c :: cs, v, .lf⟩) (by simp) hd0 req hv
  obtain ⟨slot, hslot, hat⟩ := hslot
  have ha3 : Accepting b (i + (cs.length + 2) + v.length)
      (inValue req slot) := by
    rw [← hslot]
    exact ha2
  have hline := lineEnd_inValue b (i + (cs.length + 2) + v.length) req slot
  obtain ⟨r, eol, l3, ho, hd3, hi3⟩ := hline.split ha3 (drop_append_length hdv) hcr
  have htake := parseHeader_take (show List.Forall₂ _ (inValue req slot).headers _ from
    K.headers) hat
  refine ⟨⟨c :: cs, v, eol⟩, l3, ?_⟩
  have hbytes : b.drop i = HeaderLine.bytes ⟨c :: cs, v, eol⟩ ++ l3 := by
    have h1 := (drop_append_length hdv).symm.trans hd3
    rw [hd0, h1]
    simp [HeaderLine.bytes]
  have hblen : i + (HeaderLine.bytes ⟨c :: cs, v, eol⟩).length < MAX_HEADER_BYTES := by
    have h1 : (HeaderLine.bytes ⟨c :: cs, v, eol⟩).length
        = cs.length + 1 + 1 + v.length + eol.bytes.length := by
      simp [HeaderLine.bytes]
      omega
    omega
  cases hn : takeHeader hs n ⟨c :: cs, v, eol⟩ with
  | none =>
    have hnone : takeHeader hs req.contentLength ⟨c :: cs, v, .lf⟩ = none := by
      rw [← hn, K.length]
      rfl
    rw [htake.2 hnone] at ho
    cases ho
  | some n' =>
    exact ⟨n', hbytes, ⟨⟨c, cs, rfl, hc, hcs⟩, hv⟩, hlen, hblen, rfl⟩

/-! ## all header lines -/

theorem headers_run {l : Bytes} {i n' : Nat} (xs : List HeaderLine) (K : Keyed b m u ver hs n req)
    (hd : b.drop i = xs.flatMap HeaderLine.bytes ++ l) (hx : ∀ x ∈ xs, x.WellFormed)
    (hlen : hs.length + xs.length ≤ MAX_HEADERS)
    (hi : i + (xs.flatMap HeaderLine.bytes).length < MAX_HEADER_BYTES)
    (hn : lengthFrom hs n xs = some n') :
    ∃ req', runFrom b i req = runFrom b (i + (xs.flatMap HeaderLine.bytes).length) req' ∧
      Keyed b m u ver (hs ++ xs) n' req' := by
  induction xs generalizing i n hs req with
  | nil =>
    cases hn
    exact ⟨req, rfl, by rwa [List.append_nil]⟩
  | cons x xs ih =>
    rw [List.flatMap_cons, List.append_assoc] at hd
    rw [List.flatMap_cons, List.length_append] at hi
    rw [List.length_cons] at hlen
    unfold lengthFrom at hn
    cases ht : takeHeader hs n x with
    | none => rw [ht] at hn; cases hn
    | some n1 =>
      rw [ht] at hn
      obtain ⟨hx1, hx2⟩ := List.forall_mem_cons.mp hx
      obtain ⟨r, h1, K1⟩ := header_run K hd hx1 (by omega) (by omega) ht
      obtain ⟨r', h2, K2⟩ := ih K1 (drop_append_length hd) hx2
        (by rw [List.length_append, List.length_singleton]; omega) (by omega) hn
      refine ⟨r', ?_, by rwa [List.append_assoc] at K2⟩
      rw [h1, h2, List.flatMap_cons, List.length_append, Nat.add_assoc]

/-- an accepting run finds header lines, and then the end of the head -/
theorem headers_split {i : Nat} (K : Keyed b m u ver hs n req) (ha : Accepting b i req)
    (hcount : hs.length ≤ MAX_HEADERS) :
    ∃ xs c l n', b.drop i = xs.flatMap HeaderLine.bytes ++ c :: l ∧ (c = CR ∨ c = LF) ∧
      (∀ x ∈ xs, x.WellFormed) ∧ hs.length + xs.length ≤ MAX_HEADERS ∧
      i + (xs.flatMap HeaderLine.bytes).length < MAX_HEADER_BYTES ∧
      lengthFrom hs n xs = some n' := by
  obtain ⟨k, hk⟩ : ∃ k, k = b.length - i := ⟨_, rfl⟩
  induction k using Nat.strong_induction_on generalizing i hs n req with
  | _ k ih =>
    obtain ⟨c, l, hd, hi⟩ := ha.cons (by rw [K.state]; rfl)
    by_cases hc : c = CR ∨ c = LF
    · exact ⟨[], c, l, n, hd, hc, fun _ h => absurd h List.not_mem_nil, hcount,
        Nat.lt_of_succ_lt hi, rfl⟩
    · obtain ⟨hc1, hc2⟩ := not_or.mp hc
      obtain ⟨x, l', n1, hd1, hx, hlen, hi1, hn⟩ := header_split K ha hd hc1 hc2
      obtain ⟨r, hrun, K1⟩ := header_run K hd1 hx hlen hi1 hn
      have hpos : 0 < x.bytes.length := by simp [HeaderLine.bytes]
      have hib := (byteAt_drop hd).2.1
      have ha1 : Accepting b (i + x.bytes.length) r := by
        unfold Accepting at ha ⊢
        rwa [hrun] at ha
      obtain ⟨xs, e, l2, n2, h1, h2, h3, h4, h5, h6⟩ :=
        ih (b.length - (i + x.bytes.length)) (by omega)
        K1 ha1 (by rw [List.length_append, List.length_singleton]; omega) rfl
      rw [drop_append_length hd1] at h1
      rw [List.length_append, List.length_singleton] at h4
      refine ⟨x :: xs, e, l2, n2, ?_, h2, List.forall_mem_cons.mpr ⟨hx, h3⟩, ?_, ?_, ?_⟩
      · rw [hd1, h1, List.flatMap_cons, List.append_assoc]
      · rw [List.length_cons]; omega
      · rw [List.flatMap_cons, List.length_append]; omega
      · rw [lengthFrom, hn]
        exact h6

end

end Http

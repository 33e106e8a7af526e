import CtfServer.Http.Request
import CtfServer.Lib.Incremental
import Mathlib.Data.List.GetD
import Mathlib.Data.List.Find

/-!
# The parser does not see the chunks

`parse_chunk` keeps its whole state in the request, so a request may arrive in any pieces.

* `HttpRequest.Within i`   every stored slice ends at the offset `i` or before it;
* `Received buf req`       what holds between two calls of `parse_chunk`;
* `parseLoop_append`       the loop over `b ++ ys` is the loop over `b`, then the loop from the
                           end of `b`;
* `feed_splits`            `parse_chunk` is an incremental consumer (`Incremental.Splits`).
-/

set_option linter.unusedVariables false
set_option linter.unusedSimpArgs false

namespace Http

/-! ## slices stay inside the bytes already read -/

/-- every slice of the request that the parser reads back ends at `i` or before it -/
structure HttpRequest.Within (i : Nat) (req : HttpRequest) : Prop where
  version : req.versionPtr.getD 0 ≤ i
  headers : ∀ h ∈ req.headers, h.name + h.nameLen ≤ i
  name : req.slot.name + req.slot.nameLen ≤ i
  value : req.slot.value.getD 0 + req.slot.valueLen ≤ i
  unnamed : req.state ≠ .headerValue → req.state ≠ .headerLf → req.slot.nameLen = 0

theorem HttpRequest.Within.mono {i j : Nat} {req : HttpRequest} (h : req.Within i) (hij : i ≤ j) :
    req.Within j :=
  ⟨h.version.trans hij, fun x hx => (h.headers x hx).trans hij, h.name.trans hij, h.value.trans hij,
    h.unnamed⟩

theorem within_fresh (i : Nat) : HttpRequest.fresh.Within i :=
  ⟨Nat.zero_le _, fun _ h => absurd h List.not_mem_nil, Nat.zero_le _, Nat.zero_le _,
    fun _ _ => rfl⟩

theorem takeValue_within (h : HttpHeader) (i : Nat) (c : UInt8)
    (hv : h.value.getD 0 + h.valueLen ≤ i) :
    (h.takeValue i c).name = h.name ∧ (h.takeValue i c).nameLen = h.nameLen ∧
      (h.takeValue i c).value.getD 0 + (h.takeValue i c).valueLen ≤ i + 1 := by
  unfold HttpHeader.takeValue
  split
  · exact ⟨rfl, rfl, by omega⟩
  · split
    · exact ⟨rfl, rfl, by simp⟩
    · next v hs =>
      refine ⟨rfl, rfl, ?_⟩
      rw [hs] at hv ⊢
      simp only [Option.getD_some] at hv ⊢
      omega

theorem parseHeader_frame (buf : Bytes) (req req' : HttpRequest) (h : HttpHeader)
    (hp : parseHeader buf req h = some req') : req'.versionPtr = req.versionPtr := by
  unfold parseHeader at hp
  grind

theorem endVersion_within (buf : Bytes) (i v j : Nat) (req req' : HttpRequest) (st : ParseState)
    (hw : req.Within i) (hs : req.state = .reqVersion)
    (h : endVersion buf i v req st = .next j req') : req'.Within i := by
  unfold endVersion at h
  dsimp only at h
  split at h
  · cases h
  · cases h
    exact ⟨hw.version, hw.headers, hw.name, hw.value,
      fun _ _ => hw.unnamed (by rw [hs]; decide) (by rw [hs]; decide)⟩

/-- counting the header of the slot -/
theorem pushSlot_within (i : Nat) (req : HttpRequest) (hw : req.Within i) (st : ParseState) :
    HttpRequest.Within i { req with state := st, headers := req.headers ++ [req.slot], slot := {} } := by
  refine ⟨hw.version, ?_, Nat.zero_le _, Nat.zero_le _, fun _ _ => rfl⟩
  intro h hh
  rcases List.mem_append.mp hh with h1 | h1
  · exact hw.headers h h1
  · rw [List.mem_singleton.mp h1]
    exact hw.name

theorem ReadsByte.within {buf : Bytes} {i : Nat} {req req' : HttpRequest}
    (h : ReadsByte buf i req req') (hw : req.Within i) :
    req'.Within (i + 1) := by
  have hw1 := hw.mono (Nat.le_succ i)
  -- outside the states of the value the slot has no name length yet
  have hsame : req.state ≠ .headerValue → req.state ≠ .headerLf →
      ∀ r : HttpRequest, r.versionPtr = req.versionPtr → r.headers = req.headers →
        r.slot = req.slot → r.Within (i + 1) := by
    intro h1 h2 r e1 e2 e3
    exact ⟨by rw [e1]; exact hw1.version, by rw [e2]; exact hw1.headers, by rw [e3]; exact hw1.name,
      by rw [e3]; exact hw1.value, fun _ _ => by rw [e3]; exact hw1.unnamed h1 h2⟩
  -- the version starts here, or before
  have hversion : HttpRequest.Within i { req with versionPtr := some (req.versionPtr.getD i) } := by
    refine ⟨?_, hw.headers, hw.name, hw.value, hw.unnamed⟩
    have := hw.version
    cases hp : req.versionPtr with
    | none => simp
    | some v => simpa [hp] using this
  -- checking a header changes nothing of it
  have hparsed : ∀ r, req.state = .headerValue → parseHeader buf req req.slot = some r →
    r.Within (i + 1) := by
    intro r hs hp
    obtain ⟨h0, h2, h3⟩ := parseHeader_state _ _ _ _ hp
    have h4 := parseHeader_frame _ _ _ _ hp
    exact ⟨by rw [h4]; exact hw1.version, by rw [h2]; exact hw1.headers, by rw [h3]; exact hw1.name,
      by rw [h3]; exact hw1.value, fun h1 _ => absurd (h0.trans hs) h1⟩
  cases h with
  | uri hs => exact hsame (by simp [hs]) (by simp [hs]) _ rfl rfl rfl
  | uriEnd hs hlen => exact hsame (by simp [hs]) (by simp [hs]) _ rfl rfl rfl
  | version hs => exact hversion.mono (Nat.le_succ i)
  | versionEnd hs hst h =>
    exact (endVersion_within _ _ _ _ _ _ _ hversion hs h).mono (Nat.le_succ i)
  | line hs =>
    rcases hs with ⟨hs, -⟩ | ⟨hs, -⟩ | ⟨hs, -⟩ <;> exact hsame (by simp [hs]) (by simp [hs])
      _ rfl rfl rfl
  | nameStart hs hroom =>
    have hlen := hw.unnamed (by simp [hs]) (by simp [hs])
    refine ⟨hw1.version, hw1.headers, ?_, hw1.value, fun _ _ => hlen⟩
    show i + req.slot.nameLen ≤ i + 1
    omega
  | name hs => exact hw1
  | nameEnd hs =>
    refine ⟨hw1.version, hw1.headers, ?_, hw1.value, fun h1 _ => absurd rfl h1⟩
    have := hw.name
    show req.slot.name + (i - req.slot.name) ≤ i + 1
    omega
  | value hs =>
    obtain ⟨h1, h2, h3⟩ := takeValue_within req.slot i (byteAt buf i) hw.value
    refine ⟨hw1.version, hw1.headers, ?_, h3, fun h4 _ => absurd hs h4⟩
    show (req.slot.takeValue i (byteAt buf i)).name +
      (req.slot.takeValue i (byteAt buf i)).nameLen ≤ _
    rw [h1, h2]
    exact hw1.name
  | valueEnd hs hp =>
    have hr := hparsed _ hs hp
    exact ⟨hr.version, hr.headers, hr.name, hr.value, fun _ h1 => absurd rfl h1⟩
  | valueLf hs hp => exact pushSlot_within (i + 1) _ (hparsed _ hs hp) .headerKey
  | headerLine hs => exact pushSlot_within (i + 1) req hw1 .headerKey

theorem parseStep_within (buf : Bytes) (e i j : Nat) (req req' : HttpRequest) (hw : req.Within i)
    (hm : req.state ≠ .reqMethod) (h : parseStep buf e i req = .next j req') : req'.Within j := by
  have hj := (parseStep_next buf e i j req req' h hm).1
  unfold parseStep at h
  split at h
  · cases h
  · split at h
    · cases h
    · next k r hb =>
      obtain ⟨hk, hturn⟩ := parseByte_readsByte buf e i k req r hb hm
      have hr := hturn.within hw
      subst hk hj
      unfold headerComplete at h
      dsimp only at h
      split at h
      · split at h
        · cases h
        · split at h
          · cases h
          · cases h
            exact ⟨hr.version, hr.headers, hr.name, hr.value, hr.unnamed⟩
      · cases h
        exact hr

/-! ## a longer buffer gives the same turn -/

theorem byteAt_append (b ys : Bytes) (i : Nat) (h : i < b.length) :
    byteAt (b ++ ys) i = byteAt b i := by
  unfold byteAt
  rw [List.getD_append _ _ _ _ h]

theorem parseMethod_append (b ys : Bytes) (m : Nat) (h : m + 8 ≤ b.length) :
    parseMethod (b ++ ys) m = parseMethod b m := by
  unfold parseMethod
  rw [Bytes.slice_append b ys m 8 h]

theorem parseMethod_len (b : Bytes) (m : Nat) (method : HttpMethod) (len : Nat)
    (h : parseMethod b m = some (method, len)) : len ≤ 7 := by
  unfold parseMethod at h
  grind

theorem parseVersion_append (b ys : Bytes) (v len : Nat) (h : v + len ≤ b.length) :
    parseVersion (b ++ ys) v len = parseVersion b v len := by
  unfold parseVersion
  dsimp only
  by_cases h8 : len = 8
  · subst h8
    have e : ∀ k, k < 8 → byteAt (b ++ ys) (v + k) = byteAt b (v + k) := fun k hk =>
      byteAt_append b ys (v + k) (by omega)
    simp only [e 0 (by omega), e 1 (by omega), e 2 (by omega), e 3 (by omega), e 4 (by omega),
      e 5 (by omega), e 6 (by omega), e 7 (by omega)]
  · rw [if_pos h8, if_pos h8]

theorem isNamed_append (b ys name : Bytes) (h : HttpHeader) (hl : h.name < b.length)
    (hn : h.name + h.nameLen ≤ b.length) : h.isNamed (b ++ ys) name = h.isNamed b name := by
  unfold HttpHeader.isNamed HttpHeader.nameBytes
  rw [byteAt_append b ys _ hl, Bytes.slice_append b ys _ _ hn]

theorem parseHeader_append (b ys : Bytes) (i : Nat) (req : HttpRequest) (hi : i < b.length)
    (hw : req.Within i) : parseHeader (b ++ ys) req req.slot = parseHeader b req req.slot := by
  have hg : ∀ name, httpRequestGetHeader (b ++ ys) req name = httpRequestGetHeader b req name := by
    intro name
    unfold httpRequestGetHeader
    apply List.find?_congr
    intro h hh
    have := hw.headers h hh
    exact isNamed_append b ys name h (by omega) (by omega)
  have hn := hw.name
  have hv := hw.value
  unfold parseHeader HttpHeader.nameBytes HttpHeader.valueBytes
  rw [byteAt_append b ys _ (by omega), Bytes.slice_append b ys _ _ (by omega),
    Bytes.slice_append b ys _ _ (by omega), hg]

theorem endVersion_append (b ys : Bytes) (i v : Nat) (req : HttpRequest) (st : ParseState)
    (hi : i < b.length) (hv : v ≤ i) :
    endVersion (b ++ ys) i v req st = endVersion b i v req st := by
  unfold endVersion
  dsimp only
  rw [parseVersion_append b ys v (i - v) (by omega)]

theorem parseStep_append (b ys : Bytes) (e e' i : Nat) (req : HttpRequest) (hi : i < b.length)
    (hw : req.Within i) (hm : req.state ≠ .reqMethod) (hb : req.state ≠ .body) :
    parseStep (b ++ ys) e' i req = parseStep b e i req := by
  have hc := byteAt_append b ys i hi
  have hp := parseHeader_append b ys i req hi hw
  have hv : req.versionPtr.getD i ≤ i := by
    have := hw.version
    cases hp : req.versionPtr with
    | none => simp
    | some v => simpa [hp] using this
  unfold parseStep parseByte
  cases hs : req.state with
  | reqMethod => exact absurd hs hm
  | body => exact absurd hs hb
  | reqVersion =>
    simp only [hc]
    rw [endVersion_append b ys i _ _ _ hi hv, endVersion_append b ys i _ _ _ hi hv]
  | headerValue => simp only [hc, hp]
  | _ => simp only [hc]

/-- only the states of the method and of the body ask for more data inside the loop -/
theorem parseStep_stop (buf : Bytes) (e i : Nat) (req : HttpRequest) (res : ChunkResult)
    (hm : req.state ≠ .reqMethod) (hb : req.state ≠ .body) (h : parseStep buf e i req = .stop res) :
    res.err.code ≠ .moreDataNeeded := by
  unfold parseStep parseByte endVersion headerComplete failWith stopNone stopMore at h
  cases hs : req.state with
  | reqMethod => exact absurd hs hm
  | body => exact absurd hs hb
  | _ =>
    simp only [hs] at h
    grind

/-! ## the loop over an appended buffer -/

/-- what the caller of `parse_chunk` sees: go on with a request, or a final result -/
def outcome (res : ChunkResult) : HttpRequest ⊕ ChunkResult :=
  if res.err.code = .moreDataNeeded then .inl res.req else .inr res

theorem outcome_more (req : HttpRequest) : outcome (moreData req) = .inl req := rfl

/-- the loop over the rest of a longer buffer, once the loop over `b` is over -/
def goOn (buf : Bytes) (i : Nat) : HttpRequest ⊕ ChunkResult → HttpRequest ⊕ ChunkResult
  | .inl req => outcome (parseLoop buf buf.length i req)
  | .inr res => .inr res

/-- the turn of the body state: all the bytes of the chunk at once -/
theorem parseStep_body (buf : Bytes) (e i : Nat) (req : HttpRequest) (hs : req.state = .body) :
    parseStep buf e i req =
      if req.bodyBytesRead + min (e - i) (req.contentLength - req.bodyBytesRead) = req.contentLength
      then stopNone { req with
        bodyBytesRead := req.bodyBytesRead + min (e - i) (req.contentLength - req.bodyBytesRead)
        state := .done }
      else stopMore { req with
        bodyBytesRead := req.bodyBytesRead + min (e - i) (req.contentLength - req.bodyBytesRead) }
        "more body data needed" := by
  unfold parseStep parseByte
  simp only [hs, ParseState.beforeBody, Bool.false_eq_true, false_and, if_false]
  split
  · next hst =>
    split at hst
    · cases hst
      rw [if_pos ‹_›]
      rfl
    · cases hst
      rw [if_neg ‹_›]
      simp only [stopMore, hs]
  · next hst => split at hst <;> cases hst

/-- outcome of the loop in the body state -/
def bodyOutcome (n : Nat) (req : HttpRequest) : HttpRequest ⊕ ChunkResult :=
  let read := req.bodyBytesRead + min n (req.contentLength - req.bodyBytesRead)
  if read = req.contentLength then
    .inr ⟨⟨.none, ""⟩, STATUS_OK, { req with bodyBytesRead := read, state := .done }⟩
  else .inl { req with bodyBytesRead := read }

theorem parseLoop_body (buf : Bytes) (e i : Nat) (req : HttpRequest) (hi : i < e)
    (hs : req.state = .body) : outcome (parseLoop buf e i req) = bodyOutcome (e - i) req := by
  have h := parseStep_body buf e i req hs
  unfold bodyOutcome
  dsimp only
  split at h
  · rw [parseLoop_stop _ _ _ _ _ hi h, if_pos ‹_›]
    rfl
  · rw [parseLoop_stop _ _ _ _ _ hi h, if_neg ‹_›]
    rfl

/-- counting a body in two parts -/
theorem bodyOutcome_add (m n : Nat) (req r : HttpRequest) (h : bodyOutcome m req = .inl r) :
    bodyOutcome (m + n) req = bodyOutcome n r := by
  unfold bodyOutcome at h
  dsimp only at h
  split at h
  · cases h
  · cases h
    unfold bodyOutcome
    dsimp only
    have e : req.bodyBytesRead + min m (req.contentLength - req.bodyBytesRead)
        + min n (req.contentLength
          - (req.bodyBytesRead + min m (req.contentLength - req.bodyBytesRead)))
        = req.bodyBytesRead + min (m + n) (req.contentLength - req.bodyBytesRead) := by omega
    rw [e]

theorem bodyOutcome_final (m n : Nat) (req : HttpRequest) (res : ChunkResult)
    (h : bodyOutcome m req = .inr res) : bodyOutcome (m + n) req = .inr res := by
  unfold bodyOutcome at h ⊢
  dsimp only at h ⊢
  split at h
  · next hr =>
    have e : min (m + n) (req.contentLength - req.bodyBytesRead)
        = min m (req.contentLength - req.bodyBytesRead) := by omega
    rw [e, if_pos hr]
    exact h
  · cases h

theorem parseLoop_append_body (b ys : Bytes) (i : Nat) (req : HttpRequest) (hi : i < b.length)
    (hs : req.state = .body) :
    outcome (parseLoop (b ++ ys) (b ++ ys).length i req)
      = goOn (b ++ ys) b.length (outcome (parseLoop b b.length i req)) := by
  have hlen : (b ++ ys).length - i = b.length - i + ys.length := by rw [List.length_append]; omega
  rw [parseLoop_body _ _ _ _ (by rw [List.length_append]; omega) hs,
    parseLoop_body _ _ _ _ hi hs, hlen]
  cases hb : bodyOutcome (b.length - i) req with
  | inr res => rw [bodyOutcome_final _ _ _ _ hb]; rfl
  | inl r =>
    rw [bodyOutcome_add _ _ _ _ hb]
    have hr : r.state = .body := by
      unfold bodyOutcome at hb
      dsimp only at hb
      split at hb <;> cases hb
      exact hs
    show _ = outcome (parseLoop (b ++ ys) (b ++ ys).length b.length r)
    by_cases hy : ys.length = 0
    · rw [parseLoop_end _ _ _ _ (by rw [List.length_append]; omega), outcome_more, hy]
      -- no byte more: the body is still incomplete
      unfold bodyOutcome at hb ⊢
      dsimp only at hb ⊢
      split at hb <;> cases hb
      simp only [Nat.zero_min, Nat.add_zero]
      rw [if_neg ‹_›]
    · rw [parseLoop_body _ _ _ _ (by rw [List.length_append]; omega) hr]
      congr 1
      rw [List.length_append]
      omega

theorem parseLoop_append (b ys : Bytes) (i : Nat) (req : HttpRequest) (hi : i ≤ b.length)
    (hw : req.Within i) (hm : req.state ≠ .reqMethod) :
    outcome (parseLoop (b ++ ys) (b ++ ys).length i req)
      = goOn (b ++ ys) b.length (outcome (parseLoop b b.length i req)) := by
  obtain ⟨n, hn⟩ : ∃ n, n = b.length - i := ⟨_, rfl⟩
  induction n generalizing i req with
  | zero =>
    have e : i = b.length := by omega
    rw [parseLoop_end b b.length i req (by omega), outcome_more, e]
    rfl
  | succ n ih =>
    have hlt : i < b.length := by omega
    have hlt' : i < (b ++ ys).length := by rw [List.length_append]; omega
    by_cases hb : req.state = .body
    · exact parseLoop_append_body b ys i req hlt hb
    · have hstep := parseStep_append b ys b.length (b ++ ys).length i req hlt hw hm hb
      cases hs : parseStep b b.length i req with
      | stop res =>
        rw [parseLoop_stop _ _ _ _ res hlt' (hstep.trans hs), parseLoop_stop _ _ _ _ res hlt hs]
        unfold outcome
        rw [if_neg (parseStep_stop _ _ _ _ _ hm hb hs)]
        rfl
      | next j req' =>
        obtain ⟨h1, h2, -⟩ := parseStep_next b b.length i j req req' hs hm
        rw [parseLoop_next _ _ _ _ _ _ hlt' (hstep.trans hs), parseLoop_next _ _ _ _ _ _ hlt hs]
        exact ih j req' (by omega) (parseStep_within _ _ _ _ _ _ hw hm hs) h2 (by omega)

/-! ## the method state -/

/-- the request between two calls while the method is not known -/
def awaitMethod (m : Option Nat) : HttpRequest := { methodPtr := m }

/-- what the parser remembers between two calls: `buf` are the bytes received so far -/
structure Received (buf : Bytes) (req : HttpRequest) : Prop where
  live : req.state ≠ .done
  within : req.Within buf.length
  start : req.state = .reqMethod →
    (buf = [] ∧ req = awaitMethod none) ∨ (buf.length < 8 ∧ req = awaitMethod (some 0))

theorem received_fresh : Received [] HttpRequest.fresh :=
  ⟨by decide, within_fresh _, fun _ => Or.inl ⟨rfl, rfl⟩⟩

/-- the turn of the method state at the first bytes of a request -/
theorem parseStep_start (buf : Bytes) (e i : Nat) (m : Option Nat) (hi : i < 8)
    (hm : m.getD i = 0) :
    parseStep buf e i (awaitMethod m) =
      if e < 8 then stopMore (awaitMethod (some 0)) "more data needed"
      else
        match parseMethod buf 0 with
        | none => failWith (awaitMethod (some 0)) 501 "invalid request line: unknown method"
        | some (method, len) =>
          .next (len + 1) { awaitMethod (some 0) with method := method, methodLen := len, state :=
            .reqUri } := by
  have hmax : ¬ (MAX_HEADER_BYTES ≤ i + 1) := by unfold MAX_HEADER_BYTES; omega
  unfold parseStep parseByte awaitMethod
  simp only [hm, ge_iff_le, hmax, and_false, if_false, Nat.sub_zero]
  split
  · next h8 =>
    split at h8
    · cases h8
      rw [if_pos ‹_›]
      rfl
    · rw [if_neg ‹_›]
      split at h8
      · next hp => cases h8; simp only [hp]; rfl
      · cases h8
  · next h8 =>
    split at h8
    · cases h8
    · rw [if_neg ‹_›]
      split at h8
      · cases h8
      · next hp => cases h8; simp [hp, headerComplete]

/-- before the method is known, a chunk that does not bring eight bytes changes nothing else -/
theorem parseLoop_append_start (b ys : Bytes) (i : Nat) (m : Option Nat)
    (hi : i < b.length) (h8 : i < 8) (hm : m.getD i = 0) :
    outcome (parseLoop (b ++ ys) (b ++ ys).length i (awaitMethod m))
      = goOn (b ++ ys) b.length (outcome (parseLoop b b.length i (awaitMethod m))) := by
  have hlt' : i < (b ++ ys).length := by rw [List.length_append]; omega
  have h1 := parseStep_start b b.length i m h8 hm
  have h2 := parseStep_start (b ++ ys) (b ++ ys).length i m h8 hm
  by_cases hb : b.length < 8
  · rw [if_pos hb] at h1
    rw [parseLoop_stop _ _ _ _ _ hi h1]
    show _ = outcome (parseLoop (b ++ ys) (b ++ ys).length b.length (awaitMethod (some 0)))
    by_cases hy : ys.length = 0
    · rw [parseLoop_end _ _ b.length _ (by rw [List.length_append]; omega), outcome_more]
      rw [if_pos (by rw [List.length_append]; omega)] at h2
      rw [parseLoop_stop _ _ _ _ _ hlt' h2]
      rfl
    · -- the look-ahead starts over at the first byte, wherever the chunk began
      have h3 := parseStep_start (b ++ ys) (b ++ ys).length b.length (some 0) hb rfl
      have hlt3 : b.length < (b ++ ys).length := by rw [List.length_append]; omega
      cases hs : parseStep (b ++ ys) (b ++ ys).length i (awaitMethod m) with
      | stop res =>
        rw [parseLoop_stop _ _ _ _ _ hlt' hs, parseLoop_stop _ _ _ _ res hlt3
          (by rw [h3, ← h2, hs])]
      | next j r =>
        rw [parseLoop_next _ _ _ _ _ _ hlt' hs, parseLoop_next _ _ _ _ _ _ hlt3
          (by rw [h3, ← h2, hs])]
  · rw [if_neg hb] at h1
    rw [if_neg (by rw [List.length_append]; omega), parseMethod_append b ys 0 (by omega)] at h2
    cases hp : parseMethod b 0 with
    | none =>
      simp only [hp] at h1 h2
      rw [parseLoop_stop _ _ _ _ _ hi h1, parseLoop_stop _ _ _ _ _ hlt' h2]
      rfl
    | some ml =>
      obtain ⟨method, len⟩ := ml
      simp only [hp] at h1 h2
      rw [parseLoop_next _ _ _ _ _ _ hi h1, parseLoop_next _ _ _ _ _ _ hlt' h2]
      have hlen : len ≤ 7 := parseMethod_len b 0 method len hp
      refine parseLoop_append b ys (len + 1) _ (by omega) ?_ (by simp)
      exact ⟨Nat.zero_le _, fun _ h => absurd h List.not_mem_nil, Nat.zero_le _, Nat.zero_le _,
        fun _ _ => rfl⟩

/-! ## `parse_chunk` is an incremental consumer -/

/-- one receive: the chunk is appended to the buffer and parsed -/
def feed (s : Bytes × HttpRequest) (xs : Bytes) : (Bytes × HttpRequest) ⊕ ChunkResult :=
  match outcome (parseChunk (s.1 ++ xs) xs.length s.2) with
  | .inl req => .inl (s.1 ++ xs, req)
  | .inr res => .inr res

theorem parseChunk_live (buf xs : Bytes) (req : HttpRequest) (h : req.state ≠ .done) :
    parseChunk (buf ++ xs) xs.length req = parseLoop (buf ++ xs) (buf ++ xs).length
    buf.length req := by
  unfold parseChunk
  rw [if_neg h, List.length_append, Nat.add_sub_cancel]

theorem parseLoop_received (b ys : Bytes) (i : Nat) (req : HttpRequest)
    (hr : Received (b.take i) req) (hi : i ≤ b.length) :
    outcome (parseLoop (b ++ ys) (b ++ ys).length i req)
      = goOn (b ++ ys) b.length (outcome (parseLoop b b.length i req)) := by
  have hlen : (b.take i).length = i := by rw [List.length_take]; omega
  by_cases hm : req.state = .reqMethod
  · by_cases he : i = b.length
    · rw [parseLoop_end b b.length i req (by omega), outcome_more, he]
      rfl
    · rcases hr.start hm with ⟨h0, h1⟩ | ⟨h0, h1⟩
      · have hi0 : i = 0 := by rw [← hlen, h0]; rfl
        rw [h1]
        exact parseLoop_append_start b ys i none (by omega) (by omega) hi0
      · rw [h1]
        exact parseLoop_append_start b ys i (some 0) (by omega) (by omega) rfl
  · exact parseLoop_append b ys i req hi (hlen ▸ hr.within) hm

theorem parseLoop_waits (b : Bytes) (i : Nat) (req r : HttpRequest) (hi : i ≤ b.length)
    (hw : req.Within i) (hm : req.state ≠ .reqMethod) (hd : req.state ≠ .done)
    (h : outcome (parseLoop b b.length i req) = .inl r) :
    r.state ≠ .done ∧ r.Within b.length ∧ r.state ≠ .reqMethod := by
  obtain ⟨n, hn⟩ : ∃ n, n = b.length - i := ⟨_, rfl⟩
  induction n generalizing i req with
  | zero =>
    rw [parseLoop_end b b.length i req (by omega), outcome_more] at h
    cases h
    exact ⟨hd, hw.mono hi, hm⟩
  | succ n ih =>
    have hlt : i < b.length := by omega
    by_cases hb : req.state = .body
    · rw [parseLoop_body b b.length i req hlt hb] at h
      unfold bodyOutcome at h
      dsimp only at h
      split at h <;> cases h
      have hw' := hw.mono hi
      exact ⟨hd, ⟨hw'.version, hw'.headers, hw'.name, hw'.value, hw'.unnamed⟩, hm⟩
    · cases hs : parseStep b b.length i req with
      | stop res =>
        rw [parseLoop_stop _ _ _ _ res hlt hs] at h
        unfold outcome at h
        rw [if_neg (parseStep_stop _ _ _ _ _ hm hb hs)] at h
        cases h
      | next j req' =>
        obtain ⟨h1, h2, h3⟩ := parseStep_next b b.length i j req req' hs hm
        rw [parseLoop_next _ _ _ _ _ _ hlt hs] at h
        exact ih j req' (by omega) (parseStep_within _ _ _ _ _ _ hw hm hs) h2 h3 h (by omega)

theorem parseLoop_waits_start (b : Bytes) (i : Nat) (m : Option Nat) (r : HttpRequest)
    (hi : i < b.length) (h8 : i < 8) (hm : m.getD i = 0)
    (h : outcome (parseLoop b b.length i (awaitMethod m)) = .inl r) : Received b r := by
  have h1 := parseStep_start b b.length i m h8 hm
  by_cases hb : b.length < 8
  · rw [if_pos hb] at h1
    rw [parseLoop_stop _ _ _ _ _ hi h1] at h
    cases h
    exact ⟨by simp [awaitMethod], ⟨Nat.zero_le _, fun _ h => absurd h List.not_mem_nil,
      Nat.zero_le _,
      Nat.zero_le _, fun _ _ => rfl⟩, fun _ => Or.inr ⟨hb, rfl⟩⟩
  · rw [if_neg hb] at h1
    cases hp : parseMethod b 0 with
    | none =>
      simp only [hp] at h1
      rw [parseLoop_stop _ _ _ _ _ hi h1] at h
      cases h
    | some ml =>
      obtain ⟨method, len⟩ := ml
      simp only [hp] at h1
      have hlen : len ≤ 7 := parseMethod_len b 0 method len hp
      rw [parseLoop_next _ _ _ _ _ _ hi h1] at h
      obtain ⟨h2, h3, h4⟩ := parseLoop_waits b (len + 1) _ r (by omega)
        ⟨Nat.zero_le _, fun _ h => absurd h List.not_mem_nil, Nat.zero_le _, Nat.zero_le _,
          fun _ _ => rfl⟩
        (by simp) (by simp) h
      exact ⟨h2, h3, fun h5 => absurd h5 h4⟩

theorem feed_received (s s' : Bytes × HttpRequest) (xs : Bytes) (hr : Received s.1 s.2)
    (h : feed s xs = .inl s') : Received s'.1 s'.2 := by
  obtain ⟨buf, req⟩ := s
  unfold feed at h
  simp only [parseChunk_live buf xs req hr.live] at h
  cases ho : outcome (parseLoop (buf ++ xs) (buf ++ xs).length buf.length req) with
  | inr res =>
    rw [ho] at h
    cases h
  | inl r =>
    rw [ho] at h
    cases h
    have hle : buf.length ≤ (buf ++ xs).length := by rw [List.length_append]; omega
    by_cases hm : req.state = .reqMethod
    · by_cases hx : xs.length = 0
      · have hx' : xs = [] := List.length_eq_zero_iff.mp hx
        subst hx'
        rw [parseLoop_end _ _ _ _ (by simp), outcome_more] at ho
        cases ho
        simpa using hr
      · rcases hr.start hm with ⟨h0, h1⟩ | ⟨h0, h1⟩
        · simp only at h0 h1
          subst h0 h1
          exact parseLoop_waits_start _ _ none r (by simp; omega) (by simp) rfl ho
        · simp only at h0 h1
          subst h1
          exact parseLoop_waits_start _ _ (some 0) r (by rw [List.length_append]; omega) h0 rfl ho
    · obtain ⟨h1, h2, h3⟩ := parseLoop_waits _ _ _ _ hle hr.within hm hr.live ho
      exact ⟨h1, h2, fun h4 => absurd h4 h3⟩

theorem feed_splits : Incremental.Splits feed (fun s => Received s.1 s.2) := by
  have key : ∀ (s : Bytes × HttpRequest) (xs ys : Bytes), Received s.1 s.2 →
      outcome (parseChunk (s.1 ++ (xs ++ ys)) (xs ++ ys).length s.2)
        = goOn (s.1 ++ xs ++ ys) (s.1 ++ xs).length
        (outcome (parseChunk (s.1 ++ xs) xs.length s.2)) := by
    intro s xs ys hr
    rw [parseChunk_live s.1 (xs ++ ys) s.2 hr.live, parseChunk_live s.1 xs s.2 hr.live,
      ← List.append_assoc]
    exact parseLoop_received (s.1 ++ xs) ys s.1.length s.2 (by simpa using hr) (by simp)
  refine ⟨?_, fun s xs s' hr h => feed_received s s' xs hr h, ?_, ?_⟩
  · intro s hr
    obtain ⟨buf, req⟩ := s
    unfold feed
    simp only [parseChunk_live buf [] req hr.live]
    rw [parseLoop_end _ _ _ _ (by simp), outcome_more]
    simp
  · intro s xs ys s' hr h
    have hr' := feed_received s s' xs hr h
    have hk := key s xs ys hr
    unfold feed at h ⊢
    cases ho : outcome (parseChunk (s.1 ++ xs) xs.length s.2) with
    | inr res =>
      rw [ho] at h
      cases h
    | inl r =>
      rw [ho] at h hk
      cases h
      rw [hk, parseChunk_live (s.1 ++ xs) ys r hr'.live]
      simp only [goOn, List.append_assoc]
  · intro s xs ys o hr h
    have hk := key s xs ys hr
    unfold feed at h ⊢
    cases ho : outcome (parseChunk (s.1 ++ xs) xs.length s.2) with
    | inl r =>
      rw [ho] at h
      cases h
    | inr res =>
      rw [ho] at h hk
      cases h
      rw [hk]
      rfl

/-! ## the receive loop -/

theorem outcome_inl (res : ChunkResult) (r : HttpRequest) (h : outcome res = .inl r) :
    res.err.code = .moreDataNeeded ∧ res.req = r := by
  unfold outcome at h
  split at h <;> cases h
  exact ⟨‹_›, rfl⟩

theorem outcome_inr (res res' : ChunkResult) (h : outcome res = .inr res') :
    res.err.code ≠ .moreDataNeeded ∧ res = res' := by
  unfold outcome at h
  split at h <;> cases h
  exact ⟨‹_›, rfl⟩

/-- the receive loop is the consumer fed with the chunks -/
theorem feedChunks_eq_feedAll (buf : Bytes) (req : HttpRequest) (chunks : List Bytes) :
    outcome (feedChunks buf req chunks) = (Incremental.feedAll feed (buf, req) chunks).map
    Prod.snd id := by
  induction chunks generalizing buf req with
  | nil => rfl
  | cons c cs ih =>
    unfold feedChunks Incremental.feedAll feed
    dsimp only
    cases ho : outcome (parseChunk (buf ++ c) c.length req) with
    | inl r =>
      obtain ⟨h1, h2⟩ := outcome_inl _ _ ho
      rw [if_pos h1, h2]
      exact ih _ _
    | inr res =>
      obtain ⟨h1, h2⟩ := outcome_inr _ _ ho
      rw [if_neg h1, ho]
      rfl

theorem outcome_feedChunks (chunks : List Bytes) :
    outcome (feedChunks [] HttpRequest.fresh chunks) = outcome (parseWhole chunks.flatten) := by
  rw [feedChunks_eq_feedAll, feed_splits.feedAll_eq ([], HttpRequest.fresh) received_fresh]
  unfold feed parseWhole
  dsimp only [List.nil_append]
  cases ho : outcome (parseChunk chunks.flatten chunks.flatten.length HttpRequest.fresh) <;> rfl

/-! ## the status of a call that waits -/

theorem parseStep_more_status (buf : Bytes) (e i : Nat) (req : HttpRequest) (res : ChunkResult)
    (h : parseStep buf e i req = .stop res) (hc : res.err.code = .moreDataNeeded) :
    res.status = STATUS_OK := by
  unfold parseStep parseByte endVersion headerComplete failWith stopNone stopMore at h
  grind

theorem parseLoop_more_status (buf : Bytes) (e i : Nat) (req : HttpRequest)
    (hc : (parseLoop buf e i req).err.code = .moreDataNeeded) :
    (parseLoop buf e i req).status = STATUS_OK := by
  obtain ⟨n, hn⟩ : ∃ n, n = turnsLeft e i req := ⟨_, rfl⟩
  induction n using Nat.strong_induction_on generalizing i req with
  | _ n ih =>
    by_cases hi : i < e
    · cases hs : parseStep buf e i req with
      | stop res =>
        rw [parseLoop_stop _ _ _ _ res hi hs] at hc ⊢
        exact parseStep_more_status buf e i req res hs hc
      | next j r =>
        rw [parseLoop_next _ _ _ _ _ _ hi hs] at hc ⊢
        exact ih _ (hn ▸ parseStep_turns buf e i j req r hs hi) j r hc rfl
    · rw [parseLoop_end _ _ _ _ (by omega)]
      rfl

theorem parseChunk_more_status (buf : Bytes) (n : Nat) (req : HttpRequest)
    (hc : (parseChunk buf n req).err.code = .moreDataNeeded) :
    (parseChunk buf n req).status = STATUS_OK := by
  unfold parseChunk at hc ⊢
  dsimp only at hc ⊢
  split at hc
  · cases hc
  · rw [if_neg ‹_›]
    exact parseLoop_more_status _ _ _ _ hc

theorem feedChunks_more_status (buf : Bytes) (req : HttpRequest) (chunks : List Bytes)
    (hc : (feedChunks buf req chunks).err.code = .moreDataNeeded) :
    (feedChunks buf req chunks).status = STATUS_OK := by
  induction chunks generalizing buf req with
  | nil => rfl
  | cons c cs ih =>
    unfold feedChunks at hc ⊢
    dsimp only at hc ⊢
    split at hc
    · rw [if_pos ‹_›]
      exact ih _ _ hc
    · exact absurd hc ‹_›

/-- **Chunk independence.** However the bytes of a request arrive, the receive loop ends with the
error code, the response status and the request (parser state included) of one call on all of
them; that goes for the requests that are still incomplete as well. -/
theorem feedChunks_parseWhole (chunks : List Bytes) :
    let res := feedChunks [] HttpRequest.fresh chunks
    let whole := parseWhole chunks.flatten
    res.err.code = whole.err.code ∧ res.status = whole.status ∧ res.req = whole.req := by
  intro res whole
  have h : outcome res = outcome whole := outcome_feedChunks chunks
  cases ho : outcome whole with
  | inl r =>
    obtain ⟨h1, h2⟩ := outcome_inl _ _ (h.trans ho)
    obtain ⟨h3, h4⟩ := outcome_inl _ _ ho
    exact ⟨h1.trans h3.symm, (feedChunks_more_status _ _ _ h1).trans
      (parseChunk_more_status _ _ _ h3).symm,
      h2.trans h4.symm⟩
  | inr r =>
    obtain ⟨-, h2⟩ := outcome_inr _ _ (h.trans ho)
    obtain ⟨-, h4⟩ := outcome_inr _ _ ho
    rw [h2, h4]
    exact ⟨rfl, rfl, rfl⟩

end Http
